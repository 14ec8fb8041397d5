import AppBuilder.Agent.PathAgreement
import AppBuilder.Listing.StableSort

/-! What `applyFileOperations` makes of a list of files: the last operation on a path decides, and
the operations may be applied in parts as long as no path becomes an absolute one of Windows. -/
namespace AppBuilder.Agent
open Encoding Listing
open Encoding.Path (Plain segments joined)

section Paths

variable {path : Text} {rawPath normalized : String} {language : ProjectFileLanguage}

/-- A path below the root of the project, written with slashes. -/
structure RelativePath (path : Text) : Prop where
  notAbsolute : Path.isAbsolute path = false
  notWin32Absolute : Path.win32IsAbsolute path = false
  noBackslash : '\\' ∉ path
  noDotDot : Path.dotDot ∉ segments path

/-- Plain segments, and maybe a slash after the last one. -/
def NormalPath (path : Text) : Prop :=
  ∃ ss tail, ss ≠ [] ∧ (∀ s ∈ ss, Plain s ∧ '\\' ∉ s) ∧ (tail = [] ∨ tail = ['/']) ∧
    path = joined ss ++ tail

theorem normalPath_of_ok (h : normalizeProjectPath rawPath = .ok normalized)
    (hlanguage : inferProjectFileLanguage normalized = .ok language) :
    NormalPath normalized.toList := by
  obtain ⟨rfl, -, hwin32, hdot, hup, habove⟩ := normalizeProjectPath_spec h
  rw [normalizedPath, String.toList_ofList] at hdot hup habove ⊢
  have hcurrent : Path.normalize (slashes rawPath.toList) ≠ ['.', '/'] := by
    intro he
    rw [normalizedPath, he] at hlanguage
    cases hlanguage
  obtain ⟨ss, tail, hne, hss, htail, heq⟩ :=
    Path.normalize_below (isAbsolute_slashes hwin32) hdot hcurrent hup habove
  refine ⟨ss, tail, hne, fun s hs => ⟨(hss s hs).1, fun hback => ?_⟩, htail, heq⟩
  exact not_mem_slashes (Path.mem_of_mem_segments (hss s hs).2 hback)

theorem NormalPath.isAbsolute_eq (h : NormalPath path) : Path.isAbsolute path = false := by
  obtain ⟨ss, tail, hne, hss, -, rfl⟩ := h
  have hplain := Path.isPlain_joined hne fun s hs => (hss s hs).1
  obtain ⟨c, rest, heq⟩ := List.exists_cons_of_ne_nil (Path.ne_nil_of_plain hplain)
  have habs := Path.isAbsolute_of_plain hplain
  rw [heq] at habs ⊢
  exact habs

theorem NormalPath.noBackslash (h : NormalPath path) : '\\' ∉ path := by
  obtain ⟨ss, tail, -, hss, htail, rfl⟩ := h
  intro hback
  rcases List.mem_append.mp hback with hback | hback
  · rcases Path.mem_joined hback with hc | ⟨s, hs, hc⟩
    · cases hc
    · exact (hss s hs).2 hc
  · rcases htail with rfl | rfl <;> simp at hback

theorem NormalPath.noDotDot (h : NormalPath path) : Path.dotDot ∉ segments path := by
  obtain ⟨ss, tail, hne, hss, htail, rfl⟩ := h
  have hsegments := Path.segments_joined hne fun s hs => (hss s hs).1.noSlash
  rcases htail with rfl | rfl
  · rw [List.append_nil, hsegments]
    exact fun hs => (hss _ hs).1.ne_dotDot rfl
  · rw [Path.segments_cons_slash, hsegments, List.mem_append, not_or]
    exact ⟨fun hs => (hss _ hs).1.ne_dotDot rfl, by decide⟩

theorem NormalPath.normalize_eq (h : NormalPath path) : Path.normalize path = path := by
  obtain ⟨ss, tail, hne, hss, htail, rfl⟩ := h
  exact Path.normalize_joined hne (fun s hs => (hss s hs).1) htail

theorem NormalPath.relativePath_iff (h : NormalPath path) :
    RelativePath path ↔ Path.win32IsAbsolute path = false :=
  ⟨fun hr => hr.notWin32Absolute, fun hw => ⟨h.isAbsolute_eq, hw, h.noBackslash, h.noDotDot⟩⟩

theorem NormalPath.normalizedPath_eq (h : NormalPath normalized.toList) :
    normalizedPath normalized = normalized := by
  rw [normalizedPath, slashes_eq_self h.noBackslash, h.normalize_eq, String.ofList_toList]

/-- A normal path is taken again, unless it has a drive now. -/
theorem NormalPath.normalizeProjectPath_eq (h : NormalPath normalized.toList)
    (hwin32 : Path.win32IsAbsolute normalized.toList = false) :
    normalizeProjectPath normalized = .ok normalized := by
  have hescapes : ¬ (normalized.toList = text "." || startsWith normalized.toList (text "../") ||
      normalized.toList = text "..") = true := by
    have hsegments := h.noDotDot
    simp only [Bool.or_eq_true, decide_eq_true_eq, not_or]
    refine ⟨⟨fun he => ?_, fun hs => ?_⟩, fun he => ?_⟩
    · obtain ⟨ss, tail, hne, hss, htail, heq⟩ := h
      obtain ⟨s, rest, rfl⟩ := List.exists_cons_of_ne_nil hne
      rw [he] at heq
      have hs := (hss s List.mem_cons_self).1
      have hfirst : s ∈ segments (text ".") := by
        rw [heq]
        rcases htail with rfl | rfl
        · rw [List.append_nil, Path.segments_joined hne fun s hs => (hss s hs).1.noSlash]
          exact List.mem_cons_self
        · rw [Path.segments_cons_slash,
            Path.segments_joined hne fun s hs => (hss s hs).1.noSlash]
          exact List.mem_append_left _ List.mem_cons_self
      exact hs.ne_dot (List.mem_singleton.mp hfirst)
    · obtain ⟨rest, hrest⟩ := List.isPrefixOf_iff_prefix.mp hs
      rw [← hrest] at hsegments
      have hsplit : text "../" ++ rest = Path.dotDot ++ '/' :: rest := rfl
      rw [hsplit, Path.segments_cons_slash] at hsegments
      exact hsegments (List.mem_append_left _ (by decide))
    · rw [he] at hsegments
      exact hsegments (by decide)
  have habs : ¬ (Path.isAbsolute normalized.toList ||
      Path.win32IsAbsolute normalized.toList) = true := by
    rw [h.isAbsolute_eq, hwin32]
    decide
  rw [normalizeProjectPath, if_neg habs]
  dsimp only
  rw [slashes_eq_self h.noBackslash, h.normalize_eq, if_neg hescapes, String.ofList_toList]

end Paths

section Contents

variable {files files' base : List ProjectFile} {file : ProjectFile} {operation : FileOperation}
  {operations : List FileOperation} {run : Option ObjectId} {path : String}

/-- The content at a path, with the run that generated it. -/
def contentOf (files : List ProjectFile) (path : String) : Option (String × Option ObjectId) :=
  (files.find? (·.path == path)).map fun file => (file.content, file.generatedByRunId)

/-- What an operation leaves at its path. -/
def FileOperation.leaves (run : Option ObjectId) : FileOperation → Option (String × Option ObjectId)
  | .create _ content | .update _ content => some (content, run)
  | .delete _ => none

def baseContent (path : String) (found : Option (String × Option ObjectId)) (file : ProjectFile) :
    Option (String × Option ObjectId) :=
  if normalizedPath file.path == path then some (file.content, file.generatedByRunId) else found

def contentAfter (run : Option ObjectId) (path : String)
    (found : Option (String × Option ObjectId)) (operation : FileOperation) :
    Option (String × Option ObjectId) :=
  if normalizedPath operation.path == path then operation.leaves run else found

/-- What the last operation on a path leaves there, or else the base. -/
def contentAt (base : List ProjectFile) (operations : List FileOperation)
    (run : Option ObjectId) (path : String) : Option (String × Option ObjectId) :=
  operations.foldl (contentAfter run path) (base.foldl (baseContent path) none)

theorem contentOf_setProjectFile (files : List ProjectFile) (file : ProjectFile) (path : String) :
    contentOf (setProjectFile files file) path =
      if file.path == path then some (file.content, file.generatedByRunId)
      else contentOf files path := by
  have hmap : ∀ files : List ProjectFile,
      (files.map fun f => if f.path == file.path then file else f).find? (·.path == path) =
        if file.path == path then (files.find? (·.path == path)).map fun _ => file
        else files.find? (·.path == path) := by
    intro files
    induction files with
    | nil => simp
    | cons f files ih =>
      rw [List.map_cons]
      by_cases hf : f.path = file.path
      · rw [if_pos (beq_iff_eq.mpr hf)]
        by_cases hp : file.path = path
        · simp [hf, hp]
        · simpa [hf, hp] using ih
      · rw [if_neg (mt beq_iff_eq.mp hf)]
        by_cases hp : file.path = path
        · have hne : f.path ≠ path := fun he => hf (he.trans hp.symm)
          simpa [hp, hne] using ih
        · by_cases hpath : f.path = path
          · simp [hp, hpath]
          · simpa [hp, hpath] using ih
  unfold contentOf setProjectFile
  split_ifs with hany hp hp
  · obtain ⟨f, hmem, hf⟩ := List.any_eq_true.mp hany
    have hsome : (files.find? (·.path == path)).isSome = true := by
      rw [List.find?_isSome]
      exact ⟨f, hmem, by simpa [← beq_iff_eq.mp hp] using hf⟩
    obtain ⟨found, hfound⟩ := Option.isSome_iff_exists.mp hsome
    rw [hmap, if_pos hp, hfound]
    rfl
  · rw [hmap, if_neg hp]
  · have hnone : files.find? (·.path == path) = none := by
      rw [List.find?_eq_none]
      intro f hmem hf
      refine hany (List.any_eq_true.mpr ⟨f, hmem, ?_⟩)
      rw [beq_iff_eq.mp hp]
      exact hf
    rw [List.find?_append, hnone, Option.none_or, List.find?_singleton, if_pos hp]
    rfl
  · rw [List.find?_append, List.find?_singleton, if_neg hp, Option.or_none]

theorem contentOf_deleted (files : List ProjectFile) (deleted path : String) :
    contentOf (files.filter (·.path != deleted)) path =
      if deleted == path then none else contentOf files path := by
  unfold contentOf
  rw [List.find?_filter]
  split_ifs with hp
  · have hnone : (files.find? fun f => decide ((f.path != deleted) = true ∧ (f.path == path) = true))
        = none := by
      rw [List.find?_eq_none]
      intro f _ hf
      obtain ⟨hne, he⟩ := of_decide_eq_true hf
      rw [beq_iff_eq.mp he, ← beq_iff_eq.mp hp] at hne
      exact absurd hne (by simp)
    rw [hnone]
    rfl
  · congr 2
    funext f
    by_cases hf : f.path = path
    · have hne : path ≠ deleted := fun he => hp (beq_iff_eq.mpr he.symm)
      simp [hf, hne]
    · simp [hf]

/-- The step lemma of the base files. -/
theorem addBaseFile_content (h : addBaseFile files file = .ok files') :
    contentOf files' path = baseContent path (contentOf files path) file := by
  obtain ⟨normalized, hnormalized, h⟩ := bind_ok h
  obtain ⟨language, -, h⟩ := bind_ok h
  cases h
  rw [(accepts_of_ok hnormalized).2]
  exact contentOf_setProjectFile files _ path

theorem writeFile_content {normalized content : String}
    (h : writeFile run files normalized content = .ok files') (path : String) :
    contentOf files' path =
      if normalized == path then some (content, run) else contentOf files path := by
  obtain ⟨-, -, h⟩ := bind_ok h
  obtain ⟨language, -, h⟩ := bind_ok h
  cases h
  exact contentOf_setProjectFile files _ path

/-- The step lemma of the operations. -/
theorem applyFileOperation_content (h : applyFileOperation run files operation = .ok files') :
    contentOf files' path = contentAfter run path (contentOf files path) operation := by
  obtain ⟨normalized, hnormalized, h⟩ := bind_ok h
  obtain ⟨language, -, h⟩ := bind_ok h
  obtain ⟨-, rfl⟩ := accepts_of_ok hnormalized
  unfold contentAfter
  cases operation with
  | create _ content => exact writeFile_content h path
  | update _ content => exact writeFile_content h path
  | delete deleted =>
    dsimp only at h
    split_ifs at h with hrequired
    cases h
    exact contentOf_deleted files (normalizedPath deleted) path

/-- Each path is that of one file, and its language is that of its extension. -/
structure WellKept (files : List ProjectFile) : Prop where
  nodup : (files.map (·.path)).Nodup
  normal : ∀ file ∈ files, NormalPath file.path.toList
  language : ∀ file ∈ files, inferProjectFileLanguage file.path = .ok file.language

theorem wellKept_nil : WellKept [] :=
  ⟨List.nodup_nil, fun _ h => (nomatch h), fun _ h => (nomatch h)⟩

theorem paths_replaced (files : List ProjectFile) (file : ProjectFile) :
    (files.map fun f => if f.path == file.path then file else f).map (·.path) =
      files.map (·.path) := by
  rw [List.map_map]
  refine List.map_congr_left fun f _ => ?_
  by_cases hf : f.path = file.path <;> simp [hf]

theorem WellKept.set (h : WellKept files) (hnormal : NormalPath file.path.toList)
    (hlanguage : inferProjectFileLanguage file.path = .ok file.language) :
    WellKept (setProjectFile files file) := by
  have hmem : ∀ f ∈ setProjectFile files file, f = file ∨ f ∈ files := by
    intro f hf
    unfold setProjectFile at hf
    split_ifs at hf
    · obtain ⟨f', hf', rfl⟩ := List.mem_map.mp hf
      split_ifs
      · exact .inl rfl
      · exact .inr hf'
    · rcases List.mem_append.mp hf with hf | hf
      · exact .inr hf
      · exact .inl (List.mem_singleton.mp hf)
  refine ⟨?_, fun f hf => ?_, fun f hf => ?_⟩
  · unfold setProjectFile
    split_ifs with hany
    · rw [paths_replaced]
      exact h.nodup
    · rw [List.map_append, List.nodup_append]
      refine ⟨h.nodup, List.nodup_singleton _, fun path hp path' hp' he => hany ?_⟩
      obtain ⟨f, hf, rfl⟩ := List.mem_map.mp hp
      rw [List.map_singleton, List.mem_singleton] at hp'
      exact List.any_eq_true.mpr ⟨f, hf, beq_iff_eq.mpr (he.trans hp')⟩
  · rcases hmem f hf with rfl | hf
    · exact hnormal
    · exact h.normal f hf
  · rcases hmem f hf with rfl | hf
    · exact hlanguage
    · exact h.language f hf

theorem WellKept.filter (h : WellKept files) (p : ProjectFile → Bool) :
    WellKept (files.filter p) :=
  ⟨h.nodup.sublist (List.filter_sublist.map _), fun f hf => h.normal f (List.mem_of_mem_filter hf),
    fun f hf => h.language f (List.mem_of_mem_filter hf)⟩

theorem WellKept.perm (h : WellKept files) (hperm : files'.Perm files) : WellKept files' :=
  ⟨(hperm.map _).nodup_iff.mpr h.nodup, fun f hf => h.normal f (hperm.mem_iff.mp hf),
    fun f hf => h.language f (hperm.mem_iff.mp hf)⟩

theorem addBaseFile_wellKept (h : WellKept files) (hadd : addBaseFile files file = .ok files') :
    WellKept files' := by
  obtain ⟨normalized, hnormalized, hadd⟩ := bind_ok hadd
  obtain ⟨language, hlanguage, hadd⟩ := bind_ok hadd
  cases hadd
  exact h.set (normalPath_of_ok hnormalized hlanguage) hlanguage

theorem applyFileOperation_wellKept (h : WellKept files)
    (hop : applyFileOperation run files operation = .ok files') : WellKept files' := by
  obtain ⟨normalized, hnormalized, hop⟩ := bind_ok hop
  obtain ⟨language, hlanguage, hop⟩ := bind_ok hop
  have hwrite : ∀ content, writeFile run files normalized content = .ok files' →
      WellKept files' := by
    intro content hw
    obtain ⟨-, -, hw⟩ := bind_ok hw
    obtain ⟨language', hlanguage', hw⟩ := bind_ok hw
    cases hw
    exact h.set (normalPath_of_ok hnormalized hlanguage) hlanguage'
  cases operation with
  | create _ content => exact hwrite content hop
  | update _ content => exact hwrite content hop
  | delete deleted =>
    dsimp only at hop
    split_ifs at hop
    cases hop
    exact h.filter _

/-- An invariant of a step is one of the loop. -/
theorem foldlM_keeps {ε σ α : Type} {f : σ → α → Except ε σ} {inv : σ → Prop}
    (hf : ∀ s a s', inv s → f s a = .ok s' → inv s') {s s' : σ} {xs : List α} (hs : inv s)
    (h : xs.foldlM f s = .ok s') : inv s' := by
  induction xs generalizing s with
  | nil =>
    cases h
    exact hs
  | cons a xs ih =>
    obtain ⟨s₁, hs₁, h⟩ := bind_ok h
    exact ih (hf s a s₁ hs hs₁) h

/-- The files before they are sorted. -/
theorem applyFileOperations_ok {localeCompare : String → String → Ordering}
    (h : applyFileOperations localeCompare base operations run = .ok files) :
    ∃ based operated, base.foldlM addBaseFile [] = .ok based ∧
      operations.foldlM (applyFileOperation run) based = .ok operated ∧
      files = operated.mergeSort fun left right => localeCompare left.path right.path != .gt := by
  obtain ⟨based, hbased, h⟩ := bind_ok h
  obtain ⟨operated, hoperated, h⟩ := bind_ok h
  cases h
  exact ⟨based, operated, hbased, hoperated, rfl⟩

theorem find?_path_eq_some_iff (h : (files.map (·.path)).Nodup) :
    files.find? (·.path == path) = some file ↔ file ∈ files ∧ file.path = path := by
  constructor
  · intro hfind
    exact ⟨List.mem_of_find?_eq_some hfind, by simpa using List.find?_some hfind⟩
  · rintro ⟨hmem, hpath⟩
    cases hfind : files.find? (·.path == path) with
    | none =>
      rw [List.find?_eq_none] at hfind
      exact absurd (beq_iff_eq.mpr hpath) (hfind file hmem)
    | some found =>
      have hfound : found.path = path := by simpa using List.find?_some hfind
      rw [List.inj_on_of_nodup_map h (List.mem_of_find?_eq_some hfind) hmem
        (hfound.trans hpath.symm)]

theorem contentOf_perm (h : (files.map (·.path)).Nodup) (hperm : files'.Perm files)
    (path : String) : contentOf files' path = contentOf files path := by
  have h' := (hperm.map (·.path)).nodup_iff.mpr h
  refine congrArg _ (Option.ext fun file => ?_)
  rw [find?_path_eq_some_iff h', find?_path_eq_some_iff h, hperm.mem_iff]

theorem contentOf_isSome_iff :
    (contentOf files path).isSome = true ↔ ∃ file ∈ files, file.path = path := by
  rw [contentOf, Option.isSome_map, List.find?_isSome]
  simp only [beq_iff_eq]

/-- The run lemma: the invariant, and what is at each path. -/
theorem applyFileOperations_result {localeCompare : String → String → Ordering}
    (h : applyFileOperations localeCompare base operations run = .ok files) :
    WellKept files ∧ ∀ path, contentOf files path = contentAt base operations run path := by
  obtain ⟨based, operated, hbased, hoperated, rfl⟩ := applyFileOperations_ok h
  have hkept : WellKept operated := foldlM_keeps (fun _ _ _ => applyFileOperation_wellKept)
    (foldlM_keeps (fun _ _ _ => addBaseFile_wellKept) wellKept_nil hbased) hoperated
  have hperm := List.mergeSort_perm operated fun left right =>
    localeCompare left.path right.path != .gt
  refine ⟨hkept.perm hperm, fun path => ?_⟩
  have hbase := (@foldlM_spec _ _ _ _ _ (fun _ : ProjectFile => True) (contentOf · path)
    (baseContent path) (fun _ _ _ hs => ⟨trivial, addBaseFile_content hs⟩) _ _ _ hbased).2
  have hoperation := (@foldlM_spec _ _ _ _ _ (fun _ : FileOperation => True) (contentOf · path)
    (contentAfter run path) (fun _ _ _ hs => ⟨trivial, applyFileOperation_content hs⟩) _ _ _
    hoperated).2
  rw [contentOf_perm hkept.nodup hperm, hoperation, hbase]
  rfl

/-- A required file is not deleted. -/
theorem applyFileOperation_spares (h : applyFileOperation run files operation = .ok files')
    (hrequired : requiredTemplateFiles.contains (normalizedPath operation.path) = true) :
    (operation.leaves run).isSome = true := by
  obtain ⟨normalized, hnormalized, h⟩ := bind_ok h
  obtain ⟨language, -, h⟩ := bind_ok h
  obtain ⟨-, rfl⟩ := accepts_of_ok hnormalized
  cases operation with
  | create _ _ => rfl
  | update _ _ => rfl
  | delete deleted =>
    dsimp only at h
    rw [if_pos hrequired] at h
    cases h

theorem applyFileOperations_required {localeCompare : String → String → Ordering}
    (h : applyFileOperations localeCompare base operations run = .ok files) (hfile : file ∈ base)
    (hrequired : requiredTemplateFiles.contains (normalizedPath file.path) = true) :
    ∃ f ∈ files, f.path = normalizedPath file.path := by
  have hcontent := (applyFileOperations_result h).2 (normalizedPath file.path)
  obtain ⟨based, operated, -, hoperated, -⟩ := applyFileOperations_ok h
  have hspared := (@foldlM_spec _ _ _ _ _ (fun operation : FileOperation =>
    requiredTemplateFiles.contains (normalizedPath operation.path) = true →
      (operation.leaves run).isSome = true) (fun _ => ()) (fun _ _ => ())
    (fun _ _ _ hs => ⟨applyFileOperation_spares hs, rfl⟩) _ _ _ hoperated).1
  have hbase : ∀ (xs : List ProjectFile) (found : Option (String × Option ObjectId)),
      file ∈ xs ∨ found.isSome = true →
      (xs.foldl (baseContent (normalizedPath file.path)) found).isSome = true := by
    intro xs
    induction xs with
    | nil => exact fun found h => h.resolve_left fun hmem => (nomatch hmem)
    | cons x xs ih =>
      intro found h
      refine ih _ ?_
      by_cases hx : normalizedPath x.path = normalizedPath file.path
      · right
        rw [baseContent, if_pos (beq_iff_eq.mpr hx)]
        rfl
      · rw [baseContent, if_neg (mt beq_iff_eq.mp hx)]
        refine h.imp_left fun hmem => (List.mem_cons.mp hmem).resolve_left ?_
        rintro rfl
        exact hx rfl
  have hops : ∀ (xs : List FileOperation) (found : Option (String × Option ObjectId)),
      (∀ x ∈ xs, x ∈ operations) → found.isSome = true →
      (xs.foldl (contentAfter run (normalizedPath file.path)) found).isSome = true := by
    intro xs
    induction xs with
    | nil => exact fun found _ h => h
    | cons x xs ih =>
      intro found hxs h
      refine ih _ (fun y hy => hxs y (List.mem_cons_of_mem _ hy)) ?_
      unfold contentAfter
      split_ifs with hx
      · refine hspared x (hxs x List.mem_cons_self) ?_
        rw [beq_iff_eq.mp hx]
        exact hrequired
      · exact h
  rw [← contentOf_isSome_iff, hcontent]
  exact hops operations _ (fun x hx => hx) (hbase base none (.inl hfile))

end Contents

section Parts

variable {localeCompare : String → String → Ordering} {files files' base : List ProjectFile}
  {file : ProjectFile} {operation : FileOperation} {operations : List FileOperation}
  {run : Option ObjectId}

/-- What `localeCompare` promises: a consistent comparison, in which different texts may tie. -/
structure IsCollation (localeCompare : String → String → Ordering) : Prop where
  swap : ∀ a b, localeCompare b a = (localeCompare a b).swap
  trans : ∀ a b c, localeCompare a b ≠ .gt → localeCompare b c ≠ .gt → localeCompare a c ≠ .gt

def byPath (localeCompare : String → String → Ordering) (left right : ProjectFile) : Bool :=
  localeCompare left.path right.path != .gt

theorem IsCollation.trans_byPath (h : IsCollation localeCompare) (a b c : ProjectFile)
    (hab : byPath localeCompare a b = true) (hbc : byPath localeCompare b c = true) :
    byPath localeCompare a c = true := by
  simp only [byPath, bne_iff_ne] at *
  exact h.trans _ _ _ hab hbc

theorem IsCollation.total_byPath (h : IsCollation localeCompare) (a b : ProjectFile) :
    (byPath localeCompare a b || byPath localeCompare b a) = true := by
  rw [byPath, byPath, h.swap a.path b.path]
  cases localeCompare a.path b.path <;> rfl

theorem map_eq_bind {ε α β : Type} (x : Except ε α) (f : α → β) :
    (x.bind fun a => pure (f a)) = x.map f := by
  cases x <;> rfl

/-- A file that is set is set alike in both lists. -/
theorem sameTies_setProjectFile (h : SameTies (byPath localeCompare) files files')
    (hkept : WellKept files) (file : ProjectFile) :
    SameTies (byPath localeCompare) (setProjectFile files file) (setProjectFile files' file) := by
  unfold setProjectFile
  rw [← h.perm.any_eq]
  split_ifs with hany
  · have hpath : ∀ f : ProjectFile,
        (if f.path == file.path then file else f).path = f.path := by
      intro f
      split_ifs with hf
      · exact (beq_iff_eq.mp hf).symm
      · rfl
    refine h.map (fun a b => ?_) fun a ha b hb he => ?_
    · rw [byPath, hpath, hpath, byPath]
    · have hsame : a.path = b.path := by rw [← hpath a, he, hpath b]
      exact List.inj_on_of_nodup_map hkept.nodup ha hb hsame
  · refine h.append_singleton fun hmem => hany ?_
    exact List.any_eq_true.mpr ⟨file, hmem, beq_self_eq_true _⟩

/-- An operation fails for both lists alike, or keeps them alike. -/
theorem applyFileOperation_sameTies (h : SameTies (byPath localeCompare) files files')
    (hkept : WellKept files) (operation : FileOperation) :
    (∃ error, applyFileOperation run files operation = .error error ∧
      applyFileOperation run files' operation = .error error) ∨
    ∃ after after', applyFileOperation run files operation = .ok after ∧
      applyFileOperation run files' operation = .ok after' ∧
      SameTies (byPath localeCompare) after after' := by
  unfold applyFileOperation
  cases hnormalized : normalizeProjectPath operation.path with
  | error error => exact .inl ⟨error, rfl, rfl⟩
  | ok normalized =>
    cases hlanguage : inferProjectFileLanguage normalized with
    | error error =>
      refine .inl ⟨error, ?_, ?_⟩ <;> simp only [bind, Except.bind, hlanguage]
    | ok language =>
      have hwrite : ∀ content, (∃ error, writeFile run files normalized content = .error error ∧
          writeFile run files' normalized content = .error error) ∨
          ∃ after after', writeFile run files normalized content = .ok after ∧
            writeFile run files' normalized content = .ok after' ∧
            SameTies (byPath localeCompare) after after' := by
        intro content
        unfold writeFile
        cases assertTextContent normalized content with
        | error error => exact .inl ⟨error, rfl, rfl⟩
        | ok _ =>
          refine .inr ⟨setProjectFile files ⟨normalized, content, language, run⟩,
            setProjectFile files' ⟨normalized, content, language, run⟩, ?_, ?_,
            sameTies_setProjectFile h hkept _⟩ <;> rw [hlanguage] <;> rfl
      change (∃ error, (inferProjectFileLanguage normalized).bind _ = _ ∧
        (inferProjectFileLanguage normalized).bind _ = _) ∨ ∃ after after',
        (inferProjectFileLanguage normalized).bind _ = _ ∧
        (inferProjectFileLanguage normalized).bind _ = _ ∧ _
      rw [hlanguage]
      cases operation with
      | create _ content => exact hwrite content
      | update _ content => exact hwrite content
      | delete _ =>
        by_cases hrequired : requiredTemplateFiles.contains normalized = true
        · refine .inl ⟨plainError ("Cannot delete required file: " ++ normalized), ?_, ?_⟩ <;>
            exact if_pos hrequired
        · refine .inr ⟨files.filter (·.path != normalized), files'.filter (·.path != normalized),
            ?_, ?_, h.filter _⟩ <;> exact if_neg hrequired

/-- The run lemma: what is sorted at the end does not tell the lists apart. -/
theorem foldlM_sameTies (hcompare : IsCollation localeCompare)
    (h : SameTies (byPath localeCompare) files files') (hkept : WellKept files) :
    (operations.foldlM (applyFileOperation run) files).map (·.mergeSort (byPath localeCompare)) =
      (operations.foldlM (applyFileOperation run) files').map
        (·.mergeSort (byPath localeCompare)) := by
  induction operations generalizing files files' with
  | nil => exact congrArg Except.ok (h.mergeSort_eq hcompare.trans_byPath hcompare.total_byPath)
  | cons operation operations ih =>
    rw [List.foldlM_cons, List.foldlM_cons]
    rcases applyFileOperation_sameTies h hkept operation with
      ⟨error, hfails, hfails'⟩ | ⟨after, after', hok, hok', hafter⟩
    · rw [hfails, hfails']
    · rw [hok, hok']
      exact ih hafter (applyFileOperation_wellKept hkept hok)

/-- Files as they were returned are taken again, unless a path has a drive. -/
theorem foldlM_addBaseFile {before : List ProjectFile} (hkept : WellKept (before ++ files))
    (hdrive : ∀ file ∈ files, Path.win32IsAbsolute file.path.toList = false) :
    files.foldlM addBaseFile before = .ok (before ++ files) := by
  induction files generalizing before with
  | nil =>
    rw [List.append_nil]
    rfl
  | cons file files ih =>
    have hmem : file ∈ before ++ file :: files := List.mem_append_right _ List.mem_cons_self
    have hnew : ¬ before.any (·.path == file.path) = true := by
      intro hany
      obtain ⟨f, hf, hpath⟩ := List.any_eq_true.mp hany
      have hnodup := hkept.nodup
      rw [List.map_append, List.nodup_append] at hnodup
      exact hnodup.2.2 _ (List.mem_map_of_mem hf) _ (List.mem_map_of_mem List.mem_cons_self)
        (beq_iff_eq.mp hpath)
    have hadd : addBaseFile before file = .ok (before ++ [file]) := by
      unfold addBaseFile
      rw [(hkept.normal file hmem).normalizeProjectPath_eq (hdrive file List.mem_cons_self)]
      change (inferProjectFileLanguage file.path).bind _ = _
      rw [hkept.language file hmem]
      exact congrArg Except.ok (if_neg hnew)
    rw [List.foldlM_cons, hadd]
    have hrest := @ih (before ++ [file]) (by simpa using hkept)
      fun f hf => hdrive f (List.mem_cons_of_mem _ hf)
    rw [List.append_assoc] at hrest
    exact hrest

/-- What is claimed of the files that the operations return. -/
structure Applied (base : List ProjectFile) (operations : List FileOperation)
    (run : Option ObjectId) (files : List ProjectFile) : Prop where
  unique : (files.map (·.path)).Nodup
  relative : ∀ file ∈ files, RelativePath file.path.toList
  content : ∀ path, contentOf files path = contentAt base operations run path
  required : ∀ file ∈ base, requiredTemplateFiles.contains (normalizedPath file.path) = true →
    ∃ f ∈ files, f.path = normalizedPath file.path

/-- Later operations on the result are operations on the base. -/
def AppliesInParts (localeCompare : String → String → Ordering) (base : List ProjectFile)
    (operations : List FileOperation) (run : Option ObjectId) (files : List ProjectFile) : Prop :=
  ∀ later, applyFileOperations localeCompare files later run =
    applyFileOperations localeCompare base (operations ++ later) run

theorem appliesInParts (hcompare : IsCollation localeCompare)
    (h : applyFileOperations localeCompare base operations run = .ok files)
    (hdrive : ∀ file ∈ files, Path.win32IsAbsolute file.path.toList = false) :
    AppliesInParts localeCompare base operations run files := by
  intro later
  have hkept := (applyFileOperations_result h).1
  obtain ⟨based, operated, hbased, hoperated, rfl⟩ := applyFileOperations_ok h
  have hagain : (operated.mergeSort (byPath localeCompare)).foldlM addBaseFile [] =
      .ok (operated.mergeSort (byPath localeCompare)) :=
    @foldlM_addBaseFile _ [] hkept hdrive
  have hkept' : WellKept operated := hkept.perm (List.mergeSort_perm operated _).symm
  have hsame := @foldlM_sameTies _ _ _ later run hcompare (sameTies_mergeSort hcompare.trans_byPath
    hcompare.total_byPath hkept'.nodup.of_map) hkept'
  have hfirst : applyFileOperations localeCompare base (operations ++ later) run =
      (later.foldlM (applyFileOperation run) operated).map
        (·.mergeSort (byPath localeCompare)) := by
    unfold applyFileOperations
    rw [hbased]
    change ((operations ++ later).foldlM (applyFileOperation run) based).bind _ = _
    rw [List.foldlM_append, hoperated]
    exact map_eq_bind _ _
  have hsecond : applyFileOperations localeCompare (operated.mergeSort (byPath localeCompare))
      later run = (later.foldlM (applyFileOperation run)
        (operated.mergeSort (byPath localeCompare))).map (·.mergeSort (byPath localeCompare)) := by
    unfold applyFileOperations
    rw [hagain]
    exact map_eq_bind _ _
  exact hsecond.trans (hsame.symm.trans hfirst.symm)

/-- The first error of a list of operations stays its error. -/
theorem applyFileOperations_error {error : OrdinaryError}
    (h : applyFileOperations localeCompare base operations run = .error error)
    (later : List FileOperation) :
    applyFileOperations localeCompare base (operations ++ later) run = .error error := by
  unfold applyFileOperations at h ⊢
  cases hbased : base.foldlM addBaseFile [] with
  | error error' =>
    rw [hbased] at h
    exact h
  | ok based =>
    rw [hbased] at h
    change (operations.foldlM (applyFileOperation run) based).bind _ = _ at h
    change ((operations ++ later).foldlM (applyFileOperation run) based).bind _ = _
    rw [List.foldlM_append]
    cases hoperated : operations.foldlM (applyFileOperation run) based with
    | error error' =>
      rw [hoperated] at h
      exact h
    | ok operated =>
      rw [hoperated] at h
      cases h

/-- What the operations return is as it should be, and later operations go on from there, exactly
when no path that remains has become an absolute path of Windows. -/
theorem applied_in_parts_iff (hcompare : IsCollation localeCompare) :
    (∀ error, applyFileOperations localeCompare base operations run = .error error → ∀ later,
      applyFileOperations localeCompare base (operations ++ later) run = .error error) ∧
    ∀ files, applyFileOperations localeCompare base operations run = .ok files →
      (Applied base operations run files ∧
          AppliesInParts localeCompare base operations run files ↔
        ∀ path, remains base operations path = true →
          Path.win32IsAbsolute path.toList = false) := by
  refine ⟨fun error h => applyFileOperations_error h, fun files h => ?_⟩
  obtain ⟨hkept, hcontent⟩ := applyFileOperations_result h
  have hthere : ∀ path, remains base operations path = true ↔ ∃ file ∈ files, file.path = path := by
    intro path
    rw [← (applyFileOperations_spec h).2.2 path, List.any_eq_true]
    simp only [beq_iff_eq]
  constructor
  · rintro ⟨happlied, -⟩ path hremains
    obtain ⟨file, hfile, rfl⟩ := (hthere path).mp hremains
    exact (happlied.relative file hfile).notWin32Absolute
  · intro hdrive
    have hfiles : ∀ file ∈ files, Path.win32IsAbsolute file.path.toList = false :=
      fun file hfile => hdrive _ ((hthere _).mpr ⟨file, hfile, rfl⟩)
    refine ⟨⟨hkept.nodup, fun file hfile => ?_, hcontent, fun file hfile hrequired =>
      applyFileOperations_required h hfile hrequired⟩, appliesInParts hcompare h hfiles⟩
    exact (hkept.normal file hfile).relativePath_iff.mpr (hfiles file hfile)

end Parts

section Drive

/-- The order of the characters' codes is a collation. -/
def compareTexts (a b : String) : Ordering := compare a.toList b.toList

theorem isCollation_compareTexts : IsCollation compareTexts := by
  have hle : ∀ a b : String, compareTexts a b ≠ .gt ↔ (compare a.toList b.toList).isLE = true := by
    intro a b
    rw [compareTexts, Ordering.isLE_iff_ne_gt]
  refine ⟨fun a b => @Std.OrientedCmp.eq_swap _ compare _ b.toList a.toList, fun a b c hab hbc => ?_⟩
  rw [hle] at *
  exact Std.TransCmp.isLE_trans hab hbc

private def writing (path : String) : List FileOperation := [.create path ""]

private def written (path : String) : ProjectFile := ⟨path, "", .md, none⟩

private theorem apply_writing {localeCompare : String → String → Ordering} {path path' : String}
    (h : applyFileOperation none [] (.create path "") = .ok [written path']) :
    applyFileOperations localeCompare [] (writing path) none = .ok [written path'] := by
  have happly : applyFileOperations localeCompare [] (writing path) none =
      ((writing path).foldlM (applyFileOperation none) []).bind fun files =>
        pure (files.mergeSort (byPath localeCompare)) := rfl
  rw [happly, writing, List.foldlM_cons, h]
  exact congrArg Except.ok (List.mergeSort_singleton _)

theorem notes_applied_in_parts : Applied [] (writing "notes.md") none [written "notes.md"] ∧
    AppliesInParts compareTexts [] (writing "notes.md") none [written "notes.md"] := by
  refine ((applied_in_parts_iff isCollation_compareTexts).2 _ (apply_writing (by decide))).mpr ?_
  intro path hremains
  rcases remains_source hremains with ⟨file, hfile, -⟩ | ⟨operation, hop, rfl⟩
  · cases hfile
  · rw [List.mem_singleton.mp hop]
    decide

/-- `./C:/notes.md` is relative, but what it is normalized to is not. -/
theorem drive_not_applied_in_parts : ¬ ∀ (localeCompare : String → String → Ordering)
    (base : List ProjectFile) (operations : List FileOperation) (run : Option ObjectId)
    (files : List ProjectFile), IsCollation localeCompare →
    applyFileOperations localeCompare base operations run = .ok files →
    Applied base operations run files ∧
      AppliesInParts localeCompare base operations run files := by
  intro h
  have hrelative := (h _ [] (writing "./C:/notes.md") none [written "C:/notes.md"]
    isCollation_compareTexts (apply_writing (by decide))).1.relative _ List.mem_cons_self
  exact absurd hrelative.notWin32Absolute (by decide)

end Drive

end AppBuilder.Agent
