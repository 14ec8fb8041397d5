import AppBuilder.Encoding.Path

/-! Resolved paths as the lists of their names, and `path.posix.relative`. -/
namespace AppBuilder.Encoding
namespace Path

/-- The names of an absolute path, from the root on. -/
def names (path : Text) : List Text := (segments path).filter (· ≠ [])

def relativeNames : List Text → List Text → List Text
  | a :: as, b :: bs =>
    if a = b then relativeNames as bs else (a :: as).map (fun _ => dotDot) ++ b :: bs
  | as, bs => as.map (fun _ => dotDot) ++ bs

/-- `path.posix.relative` -/
def relative (cwd source target : Text) : Text :=
  joined (relativeNames (names (resolve cwd [source])) (names (resolve cwd [target])))

/-- The path at some names below a resolved path. -/
def below (root : Text) (location : List Text) : Text := '/' :: joined (names root ++ location)

variable {cwd root path : Text} {location : List Text}

theorem names_joined {ss : List Text} (hss : ∀ s ∈ ss, Plain s) : names ('/' :: joined ss) = ss := by
  have hsegments : segments ('/' :: joined ss) = [] :: segments (joined ss) :=
    segments_cons_slash [] (joined ss)
  rw [names, hsegments, List.filter_cons_of_neg (by simp)]
  by_cases hnil : ss = []
  · subst hnil
    rfl
  · rw [segments_joined hnil fun s hs => (hss s hs).noSlash, List.filter_eq_self]
    intro s hs
    simpa using (hss s hs).ne_nil

/-- Nothing leads above the root of an absolute path. -/
theorem enter_false_plain {entered : List Text} {s : Text} (h : ∀ x ∈ entered, Plain x)
    (hs : '/' ∉ s) : ∀ x ∈ enter false entered s, Plain x := by
  unfold enter
  split_ifs with hskip hup
  · exact h
  · cases entered with
    | nil => exact fun x hx => (nomatch hx)
    | cons last rest =>
      rw [leave, if_pos (h last List.mem_cons_self).ne_dotDot]
      exact fun x hx => h x (List.mem_cons_of_mem _ hx)
  · push Not at hskip
    intro x hx
    rcases List.mem_cons.mp hx with rfl | hx
    · exact ⟨hs, hskip.1, hskip.2, hup⟩
    · exact h x hx

theorem foldl_enter_false_plain {ss entered : List Text} (h : ∀ x ∈ entered, Plain x)
    (hss : ∀ s ∈ ss, '/' ∉ s) : ∀ x ∈ ss.foldl (enter false) entered, Plain x := by
  induction ss generalizing entered with
  | nil => exact h
  | cons s ss ih =>
    exact ih (enter_false_plain h (hss s List.mem_cons_self))
      fun s hs => hss s (List.mem_cons_of_mem _ hs)

theorem entered_plain (path : Text) :
    ∀ s ∈ ((segments path).foldl (enter false) []).reverse, Plain s := by
  intro s hs
  have hnone : ∀ x ∈ ([] : List Text), Plain x := fun x hx => nomatch hx
  exact foldl_enter_false_plain hnone (fun s => not_mem_of_mem_segments) s (List.mem_reverse.mp hs)

/-- A resolved path is made of plain names. -/
theorem resolve_spec (cwd : Text) (paths : List Text) :
    (∀ s ∈ names (resolve cwd paths), Plain s) ∧
      resolve cwd paths = '/' :: joined (names (resolve cwd paths)) := by
  have hplain := entered_plain (resolveFrom cwd paths.reverse [])
  have hresolve : resolve cwd paths = '/' :: joined
      ((segments (resolveFrom cwd paths.reverse [])).foldl (enter false) []).reverse := rfl
  rw [hresolve, names_joined hplain]
  exact ⟨hplain, rfl⟩

theorem names_absolute (habs : isAbsolute root = true) :
    names (resolve cwd [root]) = ((segments root).foldl (enter false) []).reverse := by
  rw [resolve_absolute habs]
  exact names_joined (entered_plain root)

theorem enter_empty (entered : List Text) : enter false entered [] = entered := if_pos (.inl rfl)

theorem foldl_enter_joined {ss : List Text} (hss : ∀ s ∈ ss, Plain s) :
    (segments ('/' :: joined ss)).foldl (enter false) [] = ss.reverse := by
  have hsegments : segments ('/' :: joined ss) = [] :: segments (joined ss) :=
    segments_cons_slash [] (joined ss)
  rw [hsegments, List.foldl_cons, enter_empty]
  by_cases hnil : ss = []
  · subst hnil
    rfl
  · rw [segments_joined hnil fun s hs => (hss s hs).noSlash, foldl_enter_plain hss,
      List.append_nil]

/-- A resolved path stays as it is. -/
theorem resolve_resolve (cwd : Text) (paths : List Text) :
    resolve cwd [resolve cwd paths] = resolve cwd paths := by
  obtain ⟨hplain, heq⟩ := resolve_spec cwd paths
  rw [resolve_absolute rfl, heq, foldl_enter_joined hplain, List.reverse_reverse]

/-- A plain path is resolved to its segments below the root. -/
theorem resolve_below (habs : isAbsolute root = true) (h : IsPlain path) :
    resolve cwd [root, path] = below (resolve cwd [root]) (segments path) := by
  have hne : root ≠ [] := by
    rintro rfl
    cases habs
  have hfrom : resolveFrom cwd [path, root] [] = root ++ '/' :: (path ++ '/' :: []) := by
    rw [resolveFrom, if_neg (ne_nil_of_plain h), isAbsolute_of_plain h, resolveFrom, if_neg hne,
      habs]
    rfl
  have hempty : segments ([] : Text) = [[]] := rfl
  rw [below, names_absolute habs, resolve, List.reverse_cons, List.reverse_singleton,
    List.singleton_append, hfrom, normalizeString, segments_cons_slash, segments_cons_slash,
    List.foldl_append, List.foldl_append, foldl_enter_plain h, hempty, List.foldl_cons, enter_empty,
    List.foldl_nil, List.reverse_append, List.reverse_reverse]

theorem names_below (hroot : ∀ s ∈ names root, Plain s) (hlocation : ∀ s ∈ location, Plain s) :
    names (below root location) = names root ++ location := by
  refine names_joined fun s hs => ?_
  rcases List.mem_append.mp hs with hs | hs
  · exact hroot s hs
  · exact hlocation s hs

theorem relativeNames_append (as bs : List Text) : relativeNames as (as ++ bs) = bs := by
  induction as with
  | nil => cases bs <;> rfl
  | cons a as ih => rw [List.cons_append, relativeNames, if_pos rfl, ih]

/-- What starts with the root and a separator is below the root. -/
theorem below_of_startsWith {paths paths' : List Text}
    (h : resolve cwd paths ++ ['/'] <+: resolve cwd paths') :
    ∃ location, resolve cwd paths' = below (resolve cwd paths) location ∧
      ∀ s ∈ location, Plain s := by
  obtain ⟨hplain, heq⟩ := resolve_spec cwd paths'
  obtain ⟨rest, hrest⟩ := h
  have hnames : names (resolve cwd paths') = names (resolve cwd paths) ++ names rest := by
    rw [← hrest, List.append_assoc]
    change (segments (resolve cwd paths ++ '/' :: rest)).filter _ = _
    rw [segments_cons_slash, List.filter_append]
    rfl
  refine ⟨names rest, ?_, fun s hs => hplain s ?_⟩
  · rw [below, ← hnames]
    exact heq
  · rw [hnames]
    exact List.mem_append_right _ hs

end Path
end AppBuilder.Encoding
