import AppBuilder.Encoding.Json
import Mathlib.Data.List.DropRight
import Mathlib.Data.List.TakeWhile

/-! Texts and POSIX paths, as `String.prototype.trim` and `node:path` treat them. -/
namespace AppBuilder.Encoding

def NUL : Char := Char.ofNat 0

/-- `WhiteSpace` and `LineTerminator`. -/
def isWhiteSpace (c : Char) : Bool :=
  (9 ≤ c.toNat && c.toNat ≤ 13) || c.toNat == 32 || c.toNat == 0xA0 || c.toNat == 0x1680 ||
    (0x2000 ≤ c.toNat && c.toNat ≤ 0x200A) || c.toNat == 0x2028 || c.toNat == 0x2029 ||
    c.toNat == 0x202F || c.toNat == 0x205F || c.toNat == 0x3000 || c.toNat == 0xFEFF

def trim (s : Text) : Text := (s.dropWhile isWhiteSpace).rdropWhile isWhiteSpace

def startsWith (s start : Text) : Bool := start.isPrefixOf s

def endsWith (s ending : Text) : Bool := ending.isSuffixOf s

def includes (s part : Text) : Bool := s.tails.any fun rest => startsWith rest part

/-- `/[a-zA-Z]/` -/
def isLetter (c : Char) : Bool := ('a' ≤ c && c ≤ 'z') || ('A' ≤ c && c ≤ 'Z')

/-- `value.replace(/\\/g, '/')` -/
def slashes (s : Text) : Text := s.map fun c => if c = '\\' then '/' else c

/-- `/^[a-zA-Z]:/` -/
def hasDriveLetter : Text → Bool
  | c :: ':' :: _ => isLetter c
  | _ => false

/-- `/^[a-zA-Z]:\//` -/
def hasDriveRoot : Text → Bool
  | c :: ':' :: '/' :: _ => isLetter c
  | _ => false

section Trim

variable {s : Text}

theorem trim_eq_self_iff :
    trim s = s ↔ s.dropWhile isWhiteSpace = s ∧ s.rdropWhile isWhiteSpace = s := by
  constructor
  · intro h
    have hright : (trim s).length ≤ (s.dropWhile isWhiteSpace).length :=
      (List.rdropWhile_prefix isWhiteSpace _).length_le
    rw [h] at hright
    have hleft := (List.dropWhile_suffix (l := s) isWhiteSpace).eq_of_length_le hright
    refine ⟨hleft, ?_⟩
    rwa [trim, hleft] at h
  · rintro ⟨hleft, hright⟩
    rw [trim, hleft, hright]

theorem not_mem_slashes : '\\' ∉ slashes s := by
  intro h
  obtain ⟨c, -, hc⟩ := List.mem_map.mp h
  split_ifs at hc with hs
  · cases hc
  · exact hs hc

theorem slashes_eq_self (h : '\\' ∉ s) : slashes s = s := by
  refine (List.map_congr_left fun c hc => ?_).trans (List.map_id s)
  have hne : c ≠ '\\' := by
    rintro rfl
    exact h hc
  exact if_neg hne

/-- A slash is as little a blank as a backslash. -/
theorem isWhiteSpace_slash :
    (isWhiteSpace ∘ fun c => if c = '\\' then '/' else c) = isWhiteSpace := by
  funext c
  simp only [Function.comp]
  split_ifs with hc
  · subst hc
    decide
  · rfl

theorem trim_slashes (s : Text) : trim (slashes s) = slashes (trim s) := by
  rw [trim, trim, slashes, slashes, List.rdropWhile, List.rdropWhile, List.dropWhile_map,
    isWhiteSpace_slash, ← List.map_reverse, List.dropWhile_map, isWhiteSpace_slash,
    ← List.map_reverse]

end Trim

namespace Path

def dot : Text := ['.']

def dotDot : Text := ['.', '.']

def segments (path : Text) : List Text := path.splitOn '/'

def joined (segments : List Text) : Text := ['/'].intercalate segments

def isAbsolute (path : Text) : Bool := path.head? == some '/'

def win32IsAbsolute : Text → Bool
  | '/' :: _ => true
  | '\\' :: _ => true
  | c :: ':' :: '/' :: _ => isLetter c
  | c :: ':' :: '\\' :: _ => isLetter c
  | _ => false

/-- A segment `..` of `normalizeString`. -/
def leave (allowAboveRoot : Bool) : List Text → List Text
  | [] => if allowAboveRoot then [dotDot] else []
  | last :: rest =>
    if last ≠ dotDot then rest
    else if allowAboveRoot then dotDot :: last :: rest
    else last :: rest

/-- A segment of `normalizeString`; the last segment of the result comes first. -/
def enter (allowAboveRoot : Bool) (entered : List Text) (segment : Text) : List Text :=
  if segment = [] ∨ segment = dot then entered
  else if segment = dotDot then leave allowAboveRoot entered
  else segment :: entered

def normalizeString (path : Text) (allowAboveRoot : Bool) : Text :=
  joined ((segments path).foldl (enter allowAboveRoot) []).reverse

/-- `path.posix.normalize` -/
def normalize (path : Text) : Text :=
  if path = [] then dot
  else
    let absolute := isAbsolute path
    let trailingSeparator := path.getLast? == some '/'
    let normalized := normalizeString path !absolute
    if normalized = [] then
      if absolute then ['/'] else if trailingSeparator then ['.', '/'] else dot
    else
      (if absolute then ['/'] else []) ++ normalized ++ if trailingSeparator then ['/'] else []

/-- The last portion of a path, without trailing separators. -/
def basename (path : Text) : Text := ((segments path).filter (· ≠ [])).getLast?.getD []

/-- `path.posix.extname` -/
def extname (path : Text) : Text :=
  let base := basename path
  match base.reverse.dropWhile (· ≠ '.') with
  | '.' :: before =>
    if before = [] ∨ base = dotDot then []
    else '.' :: (base.reverse.takeWhile (· ≠ '.')).reverse
  | _ => []

/-- The paths from the right up to the first absolute one; `cwd` is absolute. -/
def resolveFrom (cwd : Text) : List Text → Text → Text
  | [], suffix => cwd ++ '/' :: suffix
  | path :: paths, suffix =>
    if path = [] then resolveFrom cwd paths suffix
    else if isAbsolute path then path ++ '/' :: suffix
    else resolveFrom cwd paths (path ++ '/' :: suffix)

/-- `path.posix.resolve` -/
def resolve (cwd : Text) (paths : List Text) : Text :=
  '/' :: normalizeString (resolveFrom cwd paths.reverse []) false

/-- A segment that names an entry of its directory. -/
structure Plain (segment : Text) : Prop where
  noSlash : '/' ∉ segment
  ne_nil : segment ≠ []
  ne_dot : segment ≠ dot
  ne_dotDot : segment ≠ dotDot

def IsPlain (path : Text) : Prop := ∀ segment ∈ segments path, Plain segment

theorem joined_segments (path : Text) : joined (segments path) = path :=
  List.intercalate_splitOn '/'

theorem segments_joined {ss : List Text} (hne : ss ≠ []) (hss : ∀ s ∈ ss, '/' ∉ s) :
    segments (joined ss) = ss :=
  List.splitOn_intercalate '/' hss hne

theorem segments_cons_slash (a b : Text) : segments (a ++ '/' :: b) = segments a ++ segments b :=
  List.splitOn_append_cons_self a b

theorem joined_append {as bs : List Text} (has : as ≠ []) (hbs : bs ≠ []) :
    joined (as ++ bs) = joined as ++ '/' :: joined bs := by
  induction as with
  | nil => exact absurd rfl has
  | cons a as ih =>
    cases as with
    | nil =>
      obtain ⟨b, bs, rfl⟩ := List.exists_cons_of_ne_nil hbs
      simp [joined, List.intercalate_cons_cons]
    | cons a' as =>
      have hrest := ih (List.cons_ne_nil _ _)
      simp only [joined, List.cons_append, List.intercalate_cons_cons, List.append_assoc,
        List.nil_append] at hrest ⊢
      rw [hrest]

theorem not_mem_of_mem_segments {path s : Text} (hs : s ∈ segments path) : '/' ∉ s := by
  induction path generalizing s with
  | nil =>
    rw [segments, List.splitOn_nil, List.mem_singleton] at hs
    simp [hs]
  | cons c path ih =>
    rw [segments, List.splitOn_cons_eq_if_modifyHead] at hs
    split_ifs at hs with hc
    · rcases List.mem_cons.mp hs with rfl | hs
      · simp
      · exact ih hs
    · obtain ⟨first, rest, heq⟩ := List.exists_cons_of_ne_nil (List.splitOn_ne_nil '/' path)
      rw [heq, List.modifyHead_cons] at hs
      have hfirst := ih (s := first) (by rw [segments, heq]; exact List.mem_cons_self)
      rcases List.mem_cons.mp hs with rfl | hs
      · simp only [List.mem_cons, not_or]
        exact ⟨fun he => hc (by simp [← he]), hfirst⟩
      · exact ih (by rw [segments, heq]; exact List.mem_cons_of_mem _ hs)

section Enter

variable {allowAboveRoot : Bool}

theorem enter_plain {entered : List Text} {s : Text} (hs : Plain s) :
    enter allowAboveRoot entered s = s :: entered :=
  (if_neg (not_or.mpr ⟨hs.ne_nil, hs.ne_dot⟩)).trans (if_neg hs.ne_dotDot)

theorem foldl_enter_plain {ss : List Text} (hss : ∀ s ∈ ss, Plain s) (entered : List Text) :
    ss.foldl (enter allowAboveRoot) entered = ss.reverse ++ entered := by
  induction ss generalizing entered with
  | nil => rfl
  | cons s ss ih =>
    rw [List.foldl_cons, enter_plain (hss s List.mem_cons_self),
      ih fun s hs => hss s (List.mem_cons_of_mem _ hs)]
    simp

/-- Names below the `..` that lead above the root. -/
inductive Entered : List Text → Prop
  | up {entered} (all : ∀ s ∈ entered, s = dotDot) : Entered entered
  | down {s entered} (plain : Plain s) (below : Entered entered) : Entered (s :: entered)

theorem leave_entered {entered : List Text} (h : Entered entered) :
    Entered (leave allowAboveRoot entered) := by
  cases h with
  | up all =>
    cases entered with
    | nil =>
      unfold leave
      split_ifs <;> exact .up (by simp)
    | cons last rest =>
      have hlast := all last List.mem_cons_self
      rw [leave, if_neg (not_not.mpr hlast)]
      split_ifs
      · exact .up fun s hs => (List.mem_cons.mp hs).elim id (all s)
      · exact .up all
  | down plain below =>
    rw [leave, if_pos plain.ne_dotDot]
    exact below

theorem enter_entered {entered : List Text} {s : Text} (h : Entered entered) (hs : '/' ∉ s) :
    Entered (enter allowAboveRoot entered s) := by
  unfold enter
  split_ifs with hskip hup
  · exact h
  · exact leave_entered h
  · push Not at hskip
    exact .down ⟨hs, hskip.1, hskip.2, hup⟩ h

theorem foldl_enter_entered {ss : List Text} (hss : ∀ s ∈ ss, '/' ∉ s) {entered : List Text}
    (h : Entered entered) : Entered (ss.foldl (enter allowAboveRoot) entered) := by
  induction ss generalizing entered with
  | nil => exact h
  | cons s ss ih =>
    exact ih (fun s hs => hss s (List.mem_cons_of_mem _ hs))
      (enter_entered h (hss s List.mem_cons_self))

theorem mem_leave {entered : List Text} {x : Text} (hx : x ∈ leave allowAboveRoot entered) :
    x ∈ entered ∨ x = dotDot := by
  cases entered with
  | nil =>
    unfold leave at hx
    split_ifs at hx
    · exact .inr (List.mem_singleton.mp hx)
    · cases hx
  | cons last rest =>
    rw [leave] at hx
    split_ifs at hx
    · exact .inl (List.mem_cons_of_mem _ hx)
    · exact (List.mem_cons.mp hx).symm
    · exact .inl hx

/-- Nothing is entered but the segments themselves. -/
theorem mem_enter {entered : List Text} {s x : Text} (hx : x ∈ enter allowAboveRoot entered s) :
    x ∈ entered ∨ x = s := by
  unfold enter at hx
  split_ifs at hx with hskip hup
  · exact .inl hx
  · exact hup ▸ mem_leave hx
  · exact (List.mem_cons.mp hx).symm

theorem mem_foldl_enter {ss entered : List Text} {x : Text}
    (hx : x ∈ ss.foldl (enter allowAboveRoot) entered) : x ∈ entered ∨ x ∈ ss := by
  induction ss generalizing entered with
  | nil => exact .inl hx
  | cons s ss ih =>
    rcases ih hx with hx | hx
    · rcases mem_enter hx with hx | rfl
      · exact .inl hx
      · exact .inr List.mem_cons_self
    · exact .inr (List.mem_cons_of_mem _ hx)

theorem Entered.plain_or_above {entered : List Text} (h : Entered entered) :
    (∀ s ∈ entered, Plain s) ∨ entered.getLast? = some dotDot := by
  induction h with
  | @up entered all =>
    cases entered with
    | nil => exact .inl fun s hs => (nomatch hs)
    | cons s rest =>
      right
      rw [List.getLast?_eq_some_getLast (List.cons_ne_nil s rest)]
      exact congrArg some (all _ (List.getLast_mem _))
  | @down s entered plain below ih =>
    rcases ih with ih | ih
    · exact .inl fun x hx => (List.mem_cons.mp hx).elim (fun he => he ▸ plain) (ih x)
    · right
      rw [List.getLast?_cons, ih]
      rfl

end Enter

section Normalize

variable {path : Text}

theorem isAbsolute_of_plain (h : IsPlain path) : isAbsolute path = false := by
  cases path with
  | nil => rfl
  | cons c rest =>
    by_contra habs
    have hc : c = '/' := by simpa [isAbsolute] using habs
    subst hc
    have hmem : [] ∈ segments ([] ++ '/' :: rest) := by
      rw [segments_cons_slash]
      exact List.mem_append_left _ (by simp [segments])
    exact (h _ hmem).ne_nil rfl

theorem ne_nil_of_plain (h : IsPlain path) : path ≠ [] := by
  rintro rfl
  exact (h [] (by simp [segments])).ne_nil rfl

theorem getLast_of_plain (h : IsPlain path) : path.getLast? ≠ some '/' := by
  intro hlast
  obtain ⟨init, rfl⟩ := List.getLast?_eq_some_iff.mp hlast
  have hmem : [] ∈ segments (init ++ '/' :: []) := by
    rw [segments_cons_slash]
    exact List.mem_append_right _ (by simp [segments])
  exact (h _ hmem).ne_nil rfl

theorem normalizeString_plain (h : IsPlain path) (allowAboveRoot : Bool) :
    normalizeString path allowAboveRoot = path := by
  rw [normalizeString, foldl_enter_plain h, List.append_nil, List.reverse_reverse, joined_segments]

/-- A path of plain segments is normal. -/
theorem normalize_plain (h : IsPlain path) : normalize path = path := by
  have hne := ne_nil_of_plain h
  simp [normalize, hne, isAbsolute_of_plain h, normalizeString_plain h, getLast_of_plain h]

theorem normalize_relative (hne : path ≠ []) (habs : isAbsolute path = false)
    (hlast : path.getLast? ≠ some '/') :
    normalize path = if normalizeString path true = [] then dot else normalizeString path true := by
  simp [normalize, hne, habs, hlast]

/-- What stays below its root is normalized to a plain path. -/
theorem normalize_isPlain (hne : path ≠ []) (habs : isAbsolute path = false)
    (hlast : path.getLast? ≠ some '/') (hdot : normalize path ≠ dot)
    (hup : normalize path ≠ dotDot) (habove : ¬ dotDot ++ ['/'] <+: normalize path) :
    IsPlain (normalize path) ∧ segments (normalize path) =
      ((segments path).foldl (enter true) []).reverse := by
  rw [normalize_relative hne habs hlast] at hdot hup habove ⊢
  split_ifs at hdot hup habove ⊢ with hnil
  · exact absurd rfl hdot
  · unfold normalizeString at hnil hup habove ⊢
    have hentered : Entered ((segments path).foldl (enter true) []) :=
      foldl_enter_entered (fun s => not_mem_of_mem_segments) (.up fun s hs => (nomatch hs))
    generalize (segments path).foldl (enter true) [] = entered at *
    have hplain : ∀ s ∈ entered, Plain s := by
      refine hentered.plain_or_above.resolve_right fun hbottom => ?_
      obtain ⟨init, rfl⟩ := List.getLast?_eq_some_iff.mp hbottom
      rw [List.reverse_append, List.reverse_singleton] at hup habove
      cases hinit : init.reverse with
      | nil =>
        rw [hinit] at hup
        exact hup (by simp [joined])
      | cons s rest =>
        rw [hinit] at habove
        refine habove ⟨joined (s :: rest), ?_⟩
        rw [joined_append (List.cons_ne_nil _ _) (List.cons_ne_nil _ _)]
        simp [joined]
    have hcons : entered ≠ [] := by
      rintro rfl
      exact hnil rfl
    have hsegments : segments (joined entered.reverse) = entered.reverse :=
      segments_joined (by simpa using hcons) fun s hs => (hplain s (List.mem_reverse.mp hs)).noSlash
    refine ⟨fun s hs => ?_, hsegments⟩
    rw [hsegments] at hs
    exact hplain s (List.mem_reverse.mp hs)

/-- What stays below its root is normalized to plain segments and the trailing slash it had. -/
theorem normalize_below (habs : isAbsolute path = false) (hdot : normalize path ≠ dot)
    (hcurrent : normalize path ≠ ['.', '/']) (hup : normalize path ≠ dotDot)
    (habove : ¬ dotDot ++ ['/'] <+: normalize path) :
    ∃ ss tail, ss ≠ [] ∧ (∀ s ∈ ss, Plain s ∧ s ∈ segments path) ∧ (tail = [] ∨ tail = ['/']) ∧
      normalize path = joined ss ++ tail := by
  have hne : path ≠ [] := by
    rintro rfl
    exact hdot rfl
  have hnormal : normalize path = if normalizeString path true = [] then
      (if path.getLast? = some '/' then ['.', '/'] else dot)
      else normalizeString path true ++ if path.getLast? = some '/' then ['/'] else [] := by
    simp [normalize, hne, habs]
  rw [hnormal] at hdot hcurrent hup habove ⊢
  by_cases hnil : normalizeString path true = []
  · rw [if_pos hnil] at hdot hcurrent
    split_ifs at hdot hcurrent
    · exact absurd rfl hcurrent
    · exact absurd rfl hdot
  · rw [if_neg hnil] at hup habove ⊢
    have htail : ∀ tail, (tail = if path.getLast? = some '/' then ['/'] else []) →
        tail = [] ∨ tail = ['/'] := by
      rintro tail rfl
      split_ifs
      · exact .inr rfl
      · exact .inl rfl
    generalize htail' : (if path.getLast? = some '/' then ['/'] else []) = tail at hup habove ⊢
    have htail := htail tail htail'.symm
    unfold normalizeString at hnil hup habove ⊢
    have hentered : Entered ((segments path).foldl (enter true) []) :=
      foldl_enter_entered (fun s => not_mem_of_mem_segments) (.up fun s hs => (nomatch hs))
    have hsource : ∀ s ∈ (segments path).foldl (enter true) [], s ∈ segments path := fun s hs =>
      (mem_foldl_enter hs).resolve_left fun h => (nomatch h)
    generalize (segments path).foldl (enter true) [] = entered at *
    have hplain : ∀ s ∈ entered, Plain s := by
      refine hentered.plain_or_above.resolve_right fun hbottom => ?_
      obtain ⟨init, rfl⟩ := List.getLast?_eq_some_iff.mp hbottom
      rw [List.reverse_append, List.reverse_singleton] at hup habove
      cases hinit : init.reverse with
      | nil =>
        rw [hinit] at hup habove
        rcases htail with rfl | rfl
        · exact hup (by simp [joined])
        · exact habove (by simp [joined])
      | cons s rest =>
        rw [hinit] at habove
        refine habove ⟨joined (s :: rest) ++ tail, ?_⟩
        rw [joined_append (List.cons_ne_nil _ _) (List.cons_ne_nil _ _)]
        simp [joined]
    refine ⟨entered.reverse, tail, ?_, ?_, htail, rfl⟩
    · intro he
      rw [he] at hnil
      exact hnil rfl
    · intro s hs
      exact ⟨hplain s (List.mem_reverse.mp hs), hsource s (List.mem_reverse.mp hs)⟩

theorem isPlain_joined {ss : List Text} (hne : ss ≠ []) (hss : ∀ s ∈ ss, Plain s) :
    IsPlain (joined ss) := by
  rw [IsPlain, segments_joined hne fun s hs => (hss s hs).noSlash]
  exact hss

/-- Plain segments are normal, with or without a trailing slash. -/
theorem normalize_joined {ss : List Text} {tail : Text} (hne : ss ≠ [])
    (hss : ∀ s ∈ ss, Plain s) (htail : tail = [] ∨ tail = ['/']) :
    normalize (joined ss ++ tail) = joined ss ++ tail := by
  have hplain := isPlain_joined hne hss
  rcases htail with rfl | rfl
  · rw [List.append_nil, normalize_plain hplain]
  · have hstring : normalizeString (joined ss ++ ['/']) true = joined ss := by
      rw [normalizeString, segments_cons_slash, segments_joined hne fun s hs => (hss s hs).noSlash,
        List.foldl_append, foldl_enter_plain hss, List.append_nil]
      simp [segments, enter]
    have hjoined := ne_nil_of_plain hplain
    obtain ⟨c, rest, heq⟩ := List.exists_cons_of_ne_nil hjoined
    have habs := isAbsolute_of_plain hplain
    rw [heq] at hstring habs ⊢
    rw [List.cons_append] at hstring
    simp only [isAbsolute, List.head?_cons] at habs
    have hlast : (c :: (rest ++ ['/'])).getLast? = some '/' :=
      List.getLast?_eq_some_iff.mpr ⟨c :: rest, rfl⟩
    simp [normalize, isAbsolute, habs, hstring, hlast]

theorem mem_joined {ss : List Text} {c : Char} (hc : c ∈ joined ss) :
    c = '/' ∨ ∃ s ∈ ss, c ∈ s := by
  induction ss with
  | nil => cases hc
  | cons s ss ih =>
    cases ss with
    | nil => exact .inr ⟨s, List.mem_cons_self, by simpa [joined] using hc⟩
    | cons s' ss =>
      rw [joined, List.intercalate_cons_cons, ← joined, List.mem_append, List.mem_append,
        List.mem_singleton] at hc
      rcases hc with (hc | rfl) | hc
      · exact .inr ⟨s, List.mem_cons_self, hc⟩
      · exact .inl rfl
      · rcases ih hc with rfl | ⟨x, hx, hc⟩
        · exact .inl rfl
        · exact .inr ⟨x, List.mem_cons_of_mem _ hx, hc⟩

theorem mem_joined_of_mem {ss : List Text} {s : Text} {c : Char} (hs : s ∈ ss) (hc : c ∈ s) :
    c ∈ joined ss := by
  induction ss with
  | nil => cases hs
  | cons s' ss ih =>
    cases ss with
    | nil =>
      rw [List.mem_singleton.mp hs] at hc
      simpa [joined] using hc
    | cons s'' ss =>
      rw [joined, List.intercalate_cons_cons, ← joined]
      rcases List.mem_cons.mp hs with rfl | hs
      · exact List.mem_append_left _ (List.mem_append_left _ hc)
      · exact List.mem_append_right _ (ih hs)

theorem mem_of_mem_segments {s : Text} {c : Char} (hs : s ∈ segments path) (hc : c ∈ s) :
    c ∈ path := by
  rw [← joined_segments path]
  exact mem_joined_of_mem hs hc

theorem suffix_joined (rest : List Text) (last : Text) : last <:+ joined (rest ++ [last]) := by
  cases rest with
  | nil => simp [joined]
  | cons s rest =>
    rw [joined_append (List.cons_ne_nil _ _) (List.cons_ne_nil _ _)]
    refine ⟨joined (s :: rest) ++ ['/'], ?_⟩
    simp [joined]

/-- An ending without a slash is the ending of the last segment. -/
theorem segments_last {ending : Text} (hending : '/' ∉ ending) (h : ending <:+ path) :
    ∃ init last, segments path = init ++ [last] ∧ ending <:+ last := by
  have hne : segments path ≠ [] := List.splitOn_ne_nil '/' path
  obtain ⟨init, last, heq⟩ : ∃ init last, segments path = init ++ [last] :=
    ⟨_, _, (List.dropLast_append_getLast hne).symm⟩
  refine ⟨init, last, heq, ?_⟩
  rw [← joined_segments path, heq] at h
  rcases List.suffix_or_suffix_of_suffix h (suffix_joined init last) with hs | hs
  · exact hs
  cases init with
  | nil => simpa [joined] using h
  | cons s init =>
    rw [joined_append (List.cons_ne_nil _ _) (List.cons_ne_nil _ _)] at h
    have hslash : '/' :: last <:+ joined (s :: init) ++ '/' :: joined [last] :=
      ⟨joined (s :: init), by simp [joined]⟩
    rcases List.suffix_or_suffix_of_suffix h hslash with hs' | hs'
    · rcases List.suffix_cons_iff.mp hs' with he | hs'
      · exact absurd (he ▸ List.mem_cons_self) hending
      · exact hs'
    · exact absurd (hs'.subset List.mem_cons_self) hending

/-- The last segment of a path, when it is plain, is the last one of the normalized path. -/
theorem foldl_enter_last {allowAboveRoot : Bool} {init : List Text} {last : Text}
    (hlast : Plain last) :
    ∃ rest, ((init ++ [last]).foldl (enter allowAboveRoot) []).reverse = rest ++ [last] := by
  rw [List.foldl_append, List.foldl_cons, List.foldl_nil, enter_plain hlast, List.reverse_cons]
  exact ⟨_, rfl⟩

theorem resolve_absolute {cwd root : Text} (habs : isAbsolute root = true) :
    resolve cwd [root] =
      '/' :: joined ((segments root).foldl (enter false) []).reverse := by
  have hne : root ≠ [] := by
    rintro rfl
    cases habs
  rw [resolve, List.reverse_singleton, resolveFrom, if_neg hne, if_pos habs, normalizeString,
    segments_cons_slash, List.foldl_append]
  rfl

/-- A plain path below a directory other than the root. -/
theorem resolve_child {cwd root : Text} (habs : isAbsolute root = true)
    (hroot : resolve cwd [root] ≠ ['/']) (h : IsPlain path) :
    resolve cwd [root, path] = resolve cwd [root] ++ '/' :: path := by
  have hne : root ≠ [] := by
    rintro rfl
    cases habs
  rw [resolve_absolute habs] at hroot ⊢
  have hresolved : resolveFrom cwd [path, root] [] = root ++ '/' :: (path ++ '/' :: []) := by
    rw [resolveFrom, if_neg (ne_nil_of_plain h), isAbsolute_of_plain h, resolveFrom, if_neg hne,
      habs]
    rfl
  have hempty : segments ([] : Text) = [[]] := rfl
  have hskip : ∀ entered, enter false entered [] = entered := fun entered => if_pos (.inl rfl)
  rw [resolve, List.reverse_cons, List.reverse_singleton, List.singleton_append, hresolved,
    normalizeString, segments_cons_slash, segments_cons_slash, List.foldl_append,
    List.foldl_append, foldl_enter_plain h, hempty, List.foldl_cons, hskip, List.foldl_nil,
    List.reverse_append, List.reverse_reverse]
  have hbelow : ((segments root).foldl (enter false) []).reverse ≠ [] := by
    intro he
    rw [he] at hroot
    exact hroot rfl
  have hparts : segments path ≠ [] := List.splitOn_ne_nil '/' path
  rw [joined_append hbelow hparts, joined_segments]
  rfl

end Normalize

end Path

end AppBuilder.Encoding
