import AppBuilder.Agent.FileOperationLaws
import AppBuilder.Agent.GenerationCalls
import AppBuilder.Agent.PackageRecords
import Mathlib.Data.List.Find

/-! When the generation step finds that the model changed nothing. The check looks at each
operation by itself under the path as it is spelled; the files come from the last operation on each
normalized path, and from the package data. -/
namespace AppBuilder.Agent
open Encoding Artifacts Async

section Texts
variable {base files : List ProjectFile} {file : ProjectFile} {operation : FileOperation}
  {operations : List FileOperation} {path : String} {run : Option ObjectId}

/-- The content that an operation gives to its path. -/
def FileOperation.text : FileOperation → Option String
  | .create _ content | .update _ content => some content
  | .delete _ => none

/-- The content of a path, if it is there. -/
def textAt (files : List ProjectFile) (path : String) : Option String :=
  (contentOf files path).map (·.1)

/-- The last operation on a path, however it is spelled. -/
def lastOn (operations : List FileOperation) (path : String) : Option FileOperation :=
  operations.reverse.find? fun operation => normalizedPath operation.path == path

/-- The files of a snapshot as they are stored. -/
structure StoredFiles (base : List ProjectFile) : Prop where
  nodup : (base.map (·.path)).Nodup
  canonical : ∀ file ∈ base, CanonicalPath file.path.toList
  text : ∀ file ∈ base, NUL ∉ file.content.toList

theorem normalPath_of_canonical (h : CanonicalPath path.toList) : NormalPath path.toList := by
  refine ⟨Path.segments path.toList, [], ?_, fun s hs => ⟨h.plain s hs, fun hback => ?_⟩,
    .inl rfl, ?_⟩
  · exact List.splitOn_ne_nil '/' path.toList
  · exact h.noBackslash (Path.mem_of_mem_segments hs hback)
  · rw [Path.joined_segments, List.append_nil]

theorem win32IsAbsolute_of_canonical {path : Text} (h : CanonicalPath path) :
    Path.win32IsAbsolute path = false := by
  have habs := Path.isAbsolute_of_plain h.plain
  have hback := h.noBackslash
  have hdrive := h.noDriveRoot
  unfold Path.win32IsAbsolute
  split
  · cases habs
  · simp at hback
  · exact hdrive
  · simp at hback
  · rfl

theorem contentOf_base (hnodup : (files.map (·.path)).Nodup)
    (hnormal : ∀ file ∈ files, NormalPath file.path.toList) (path : String) :
    files.foldl (baseContent path) none = contentOf files path := by
  have hfold : ∀ (files : List ProjectFile) (found : Option (String × Option ObjectId)),
      (files.map (·.path)).Nodup → (∀ file ∈ files, NormalPath file.path.toList) →
      files.foldl (baseContent path) found = (contentOf files path).or found := by
    intro files
    induction files with
    | nil => exact fun found _ _ => rfl
    | cons file files ih =>
      intro found hnodup hnormal
      rw [List.map_cons, List.nodup_cons] at hnodup
      rw [List.foldl_cons, ih _ hnodup.2 fun f hf => hnormal f (List.mem_cons_of_mem _ hf),
        baseContent, (hnormal file List.mem_cons_self).normalizedPath_eq]
      by_cases hpath : file.path = path
      · have hnone : contentOf files path = none := by
          rw [← Option.not_isSome_iff_eq_none, contentOf_isSome_iff]
          rintro ⟨f, hf, he⟩
          exact hnodup.1 (List.mem_map.mpr ⟨f, hf, he.trans hpath.symm⟩)
        have hfirst : contentOf (file :: files) path =
            some (file.content, file.generatedByRunId) := by
          rw [contentOf, List.find?_cons_of_pos (by simpa using hpath)]
          rfl
        rw [if_pos (beq_iff_eq.mpr hpath), hnone, hfirst, Option.none_or, Option.some_or]
      · have hrest : contentOf (file :: files) path = contentOf files path := by
          rw [contentOf, List.find?_cons_of_neg (by simpa using hpath), contentOf]
        rw [if_neg (mt beq_iff_eq.mp hpath), hrest]
  rw [hfold files none hnodup hnormal, Option.or_none]

/-- The run lemma: the last operation on a path decides. -/
theorem foldl_contentAfter (operations : List FileOperation)
    (found : Option (String × Option ObjectId)) :
    (operations.foldl (contentAfter run path) found).map (·.1) =
      (lastOn operations path).elim (found.map (·.1)) FileOperation.text := by
  induction operations using List.reverseRecOn with
  | nil => rfl
  | append_singleton operations operation ih =>
    rw [List.foldl_append, List.foldl_cons, List.foldl_nil, contentAfter, lastOn,
      List.reverse_append, List.reverse_singleton, List.singleton_append]
    by_cases hpath : (normalizedPath operation.path == path) = true
    · rw [if_pos hpath, List.find?_cons_of_pos (by simpa using hpath)]
      cases operation <;> rfl
    · rw [if_neg hpath, List.find?_cons_of_neg (by simpa using hpath), ih, lastOn]

theorem contentAt_text (hnodup : (base.map (·.path)).Nodup)
    (hnormal : ∀ file ∈ base, NormalPath file.path.toList) (path : String) :
    (contentAt base operations run path).map (·.1) =
      (lastOn operations path).elim (textAt base path) FileOperation.text := by
  rw [contentAt, foldl_contentAfter, contentOf_base hnodup hnormal]
  rfl

theorem StoredFiles.normal (h : StoredFiles base) : ∀ file ∈ base, NormalPath file.path.toList :=
  fun file hfile => normalPath_of_canonical (h.canonical file hfile)

theorem contentByPath_eq (h : StoredFiles base) (path : String) :
    contentByPath base path = textAt base path := by
  have hslashes : ∀ file ∈ base, forwardSlashes file.path = file.path := by
    intro file hfile
    have hback := (h.canonical file hfile).noBackslash
    rw [← String.toList_inj, forwardSlashes, String.toList_map]
    exact slashes_eq_self hback
  have hnodup : (base.reverse.map (·.path)).Nodup := by
    rw [List.map_reverse, List.nodup_reverse]
    exact h.nodup
  have hfind : base.reverse.find? (fun file => forwardSlashes file.path == path) =
      base.find? (·.path == path) := by
    rw [List.find?_congr fun file hfile => by rw [hslashes file (List.mem_reverse.mp hfile)]]
    refine Option.ext fun file => ?_
    rw [find?_path_eq_some_iff hnodup, find?_path_eq_some_iff h.nodup, List.mem_reverse]
  rw [contentByPath, hfind, textAt, contentOf, Option.map_map]
  rfl

/-- The check finds nothing where each operation by itself, under the path as it is spelled, gives
the base what it has. -/
theorem hasEffectiveFileChanges_eq_false_iff (h : StoredFiles base) :
    hasEffectiveFileChanges base operations = false ↔
      ∀ operation ∈ operations, operation.text = textAt base (forwardSlashes operation.path) := by
  rw [hasEffectiveFileChanges, List.any_eq_false]
  refine forall₂_congr fun operation _ => ?_
  rw [contentByPath_eq h]
  cases operation with
  | create path content | update path content =>
    rw [Bool.not_eq_true, bne_eq_false_iff_eq]
    exact eq_comm
  | delete path =>
    rw [Option.not_isSome_iff_eq_none]
    exact eq_comm

end Texts

section Accepted
variable {base files files' : List ProjectFile} {file : ProjectFile} {operation : FileOperation}
  {operations : List FileOperation} {path : String} {run : Option ObjectId}
  {localeCompare : String → String → Ordering}

/-- An operation that `applyFileOperations` does not refuse. -/
structure AcceptedOperation (operation : FileOperation) : Prop where
  path : Accepts operation.path
  language : ∃ language, inferProjectFileLanguage (normalizedPath operation.path) = .ok language
  required : operation.isDelete = true →
    requiredTemplateFiles.contains (normalizedPath operation.path) = false

/-- Neither a file of the base nor an operation is refused. -/
structure AllAccepted (base : List ProjectFile) (operations : List FileOperation) : Prop where
  base : ∀ file ∈ base, ∃ language, inferProjectFileLanguage file.path = .ok language
  operations : ∀ operation ∈ operations, AcceptedOperation operation

theorem addBaseFile_language (hnormal : NormalPath file.path.toList)
    (h : addBaseFile files file = .ok files') :
    ∃ language, inferProjectFileLanguage file.path = .ok language := by
  obtain ⟨normalized, hnormalized, h⟩ := bind_ok h
  obtain ⟨language, hlanguage, -⟩ := bind_ok h
  rw [(accepts_of_ok hnormalized).2, hnormal.normalizedPath_eq] at hlanguage
  exact ⟨language, hlanguage⟩

theorem applyFileOperation_accepted (h : applyFileOperation run files operation = .ok files') :
    AcceptedOperation operation := by
  obtain ⟨normalized, hnormalized, h⟩ := bind_ok h
  obtain ⟨language, hlanguage, h⟩ := bind_ok h
  obtain ⟨haccepts, rfl⟩ := accepts_of_ok hnormalized
  refine ⟨haccepts, ⟨language, hlanguage⟩, fun hdelete => ?_⟩
  cases operation with
  | create _ _ => cases hdelete
  | update _ _ => cases hdelete
  | delete _ =>
    dsimp only at h
    split_ifs at h with hrequired
    exact Bool.eq_false_iff.mpr hrequired

theorem writeFile_ok {normalized content : String} {language : ProjectFileLanguage}
    (hlanguage : inferProjectFileLanguage normalized = .ok language)
    (hnul : NUL ∉ content.toList) (run : Option ObjectId) (files : List ProjectFile) :
    writeFile run files normalized content =
      .ok (setProjectFile files ⟨normalized, content, language, run⟩) := by
  have hassert : assertTextContent normalized content = .ok () := by
    rw [assertTextContent, if_neg]
    simpa using hnul
  rw [writeFile, hassert, hlanguage]
  rfl

theorem AcceptedOperation.apply (h : AcceptedOperation operation)
    (htext : ∀ content, operation.text = some content → NUL ∉ content.toList)
    (run : Option ObjectId) (files : List ProjectFile) :
    ∃ files', applyFileOperation run files operation = .ok files' := by
  obtain ⟨language, hlanguage⟩ := h.language
  have hpath : normalizeProjectPath operation.path = .ok (normalizedPath operation.path) := h.path
  have hrequired := h.required
  unfold applyFileOperation
  simp only [hpath, bind, Except.bind, hlanguage]
  cases operation with
  | create path content => exact ⟨_, writeFile_ok hlanguage (htext content rfl) run files⟩
  | update path content => exact ⟨_, writeFile_ok hlanguage (htext content rfl) run files⟩
  | delete path =>
    dsimp only
    rw [if_neg (Bool.eq_false_iff.mp (hrequired rfl))]
    exact ⟨_, rfl⟩

/-- Steps that succeed make a loop that succeeds. -/
theorem foldlM_ok {ε σ α : Type} {f : σ → α → Except ε σ} {xs : List α}
    (h : ∀ x ∈ xs, ∀ s, ∃ s', f s x = .ok s') (s : σ) : ∃ s', xs.foldlM f s = .ok s' := by
  induction xs generalizing s with
  | nil => exact ⟨s, rfl⟩
  | cons x xs ih =>
    obtain ⟨s', hs'⟩ := h x List.mem_cons_self s
    rw [List.foldlM_cons, hs']
    exact ih (fun y hy => h y (List.mem_cons_of_mem _ hy)) s'

theorem allAccepted_iff (hstored : StoredFiles base)
    (htext : ∀ operation ∈ operations, ∀ content, operation.text = some content →
      NUL ∉ content.toList) :
    AllAccepted base operations ↔
      ∃ files, applyFileOperations localeCompare base operations run = .ok files := by
  constructor
  · intro haccepted
    obtain ⟨based, hbased⟩ := @foldlM_ok _ _ _ addBaseFile base (fun file hfile files => by
      obtain ⟨language, hlanguage⟩ := haccepted.base file hfile
      have hpath := (hstored.normal file hfile).normalizeProjectPath_eq
        (win32IsAbsolute_of_canonical (hstored.canonical file hfile))
      refine ⟨setProjectFile files { file with path := file.path, language }, ?_⟩
      rw [addBaseFile, hpath]
      change (inferProjectFileLanguage file.path).bind _ = _
      rw [hlanguage]
      rfl) []
    obtain ⟨operated, hoperated⟩ := @foldlM_ok _ _ _ (applyFileOperation run) operations
      (fun operation hop =>
        (haccepted.operations operation hop).apply (htext operation hop) run) based
    refine ⟨operated.mergeSort fun left right => localeCompare left.path right.path != .gt, ?_⟩
    rw [applyFileOperations, hbased]
    change (operations.foldlM (applyFileOperation run) based).bind _ = _
    rw [hoperated]
    rfl
  · rintro ⟨files, h⟩
    obtain ⟨based, operated, hbased, hoperated, -⟩ := applyFileOperations_ok h
    refine ⟨fun file hfile => ?_, ?_⟩
    · have hall : ∀ (xs : List ProjectFile) (s s' : List ProjectFile),
          (∀ x ∈ xs, NormalPath x.path.toList) → xs.foldlM addBaseFile s = .ok s' → ∀ x ∈ xs,
          ∃ language, inferProjectFileLanguage x.path = .ok language := by
        intro xs
        induction xs with
        | nil => exact fun _ _ _ _ x hx => absurd hx List.not_mem_nil
        | cons x xs ih =>
          intro s s' hnormal h y hy
          obtain ⟨s₁, hs₁, h⟩ := bind_ok h
          rcases List.mem_cons.mp hy with rfl | hy
          · exact addBaseFile_language (hnormal y List.mem_cons_self) hs₁
          · exact ih s₁ s' (fun z hz => hnormal z (List.mem_cons_of_mem _ hz)) h y hy
      exact hall base [] based hstored.normal hbased file hfile
    · exact (@foldlM_spec _ _ _ _ _ AcceptedOperation (fun _ => ()) (fun _ _ => ())
        (fun _ _ _ hs => ⟨applyFileOperation_accepted hs, rfl⟩) _ _ _ hoperated).1

end Accepted

section Produced
variable {base files files' : List ProjectFile} {packageJson pkg : ProjectSnapshotPackageJson}
  {operations : List FileOperation} {generated : GenerationResult} {path : String}
  {run : Option ObjectId} {localeCompare : String → String → Ordering} {others : ProjectContent}
  {task : GenerationTask}

/-- The files and the package data that the generation step makes, whether it returns them or
not. -/
def produced (content : ProjectContent) (task : GenerationTask) (generated : GenerationResult) :
    Except OrdinaryError (List ProjectFile × ProjectSnapshotPackageJson) := do
  let packageJson := content.mergeProjectPackageJson task.basePackageJson generated
  let files ← content.applyFileOperations task.baseFiles generated.operations task.generatedByRunId
  let files ← writeServerPackageJson content files packageJson task.generatedByRunId
  return (files, packageJson)

/-- The text of the `package.json` that the server writes for the package data of a base. -/
def serverText (localeCompare : String → String → Ordering) (pkg : ProjectSnapshotPackageJson) :
    String :=
  stringifyPackageJson (serverPackage localeCompare pkg) ++ "\n"

/-- The operation of the server. -/
def packageOperation (files : List ProjectFile) (packageJson : ProjectSnapshotPackageJson) :
    FileOperation :=
  if files.any (·.path == "package.json") then
    .update "package.json" (stringifyPackageJson packageJson ++ "\n")
  else .create "package.json" (stringifyPackageJson packageJson ++ "\n")

theorem packageOperation_spec (files : List ProjectFile)
    (packageJson : ProjectSnapshotPackageJson) :
    (packageOperation files packageJson).path = "package.json" ∧
      (packageOperation files packageJson).isDelete = false ∧
      (packageOperation files packageJson).text =
        some (stringifyPackageJson packageJson ++ "\n") := by
  unfold packageOperation
  split_ifs <;> exact ⟨rfl, rfl, rfl⟩

theorem writeServerPackageJson_eq (files : List ProjectFile)
    (packageJson : ProjectSnapshotPackageJson) (run : Option ObjectId) :
    writeServerPackageJson (projectContent localeCompare others) files packageJson run =
      applyFileOperations localeCompare files [packageOperation files packageJson] run := rfl

theorem lastOn_packageOperation (files : List ProjectFile)
    (packageJson : ProjectSnapshotPackageJson) (path : String) :
    lastOn [packageOperation files packageJson] path =
      if path = "package.json" then some (packageOperation files packageJson) else none := by
  have hpath : normalizedPath (packageOperation files packageJson).path = "package.json" := by
    rw [(packageOperation_spec files packageJson).1]
    exact (accepts_of_ok normalize_packageJson).2.symm
  rw [lastOn, List.reverse_singleton, List.find?_singleton, hpath]
  by_cases h : path = "package.json"
  · rw [if_pos h, if_pos (beq_iff_eq.mpr h.symm)]
  · rw [if_neg h, if_neg fun he => h (beq_iff_eq.mp he).symm]

/-- What the server's own operation leaves. -/
theorem writeServerPackageJson_text (hkept : WellKept files)
    (h : writeServerPackageJson (projectContent localeCompare others) files packageJson run =
      .ok files') (path : String) :
    textAt files' path = if path = "package.json" then
      some (stringifyPackageJson packageJson ++ "\n") else textAt files path := by
  rw [writeServerPackageJson_eq] at h
  rw [textAt, (applyFileOperations_result h).2 path, contentAt_text hkept.nodup hkept.normal,
    lastOn_packageOperation]
  split_ifs with hpath
  · exact (packageOperation_spec files packageJson).2.2
  · rfl

theorem writeServerPackageJson_ok (hkept : WellKept files)
    (hdrive : ∀ file ∈ files, Path.win32IsAbsolute file.path.toList = false)
    (hnul : NUL ∉ (stringifyPackageJson packageJson ++ "\n").toList) (run : Option ObjectId) :
    ∃ files', writeServerPackageJson (projectContent localeCompare others) files packageJson run =
      .ok files' := by
  obtain ⟨hpath, hdelete, htext⟩ := packageOperation_spec files packageJson
  have haccepted : AcceptedOperation (packageOperation files packageJson) := by
    refine ⟨?_, ⟨.json, ?_⟩, fun h => ?_⟩
    · rw [hpath]
      exact (accepts_of_ok normalize_packageJson).1
    · rw [hpath, ← (accepts_of_ok normalize_packageJson).2]
      decide
    · rw [hdelete] at h
      cases h
  obtain ⟨written, hwritten⟩ := haccepted.apply (fun content hcontent => by
    rw [htext] at hcontent
    cases hcontent
    exact hnul) run files
  have hfiles : files.foldlM addBaseFile [] = .ok files := @foldlM_addBaseFile _ [] hkept hdrive
  rw [writeServerPackageJson_eq, applyFileOperations, hfiles]
  change ∃ files', ([packageOperation files packageJson].foldlM (applyFileOperation run)
    files).bind _ = _
  rw [List.foldlM_cons, hwritten]
  exact ⟨_, rfl⟩

/-- For each path but that of `package.json`, the last operation gives it what the base has. -/
def Restores (base : List ProjectFile) (operations : List FileOperation) : Prop :=
  ∀ path ≠ "package.json", ∀ operation, lastOn operations path = some operation →
    operation.text = textAt base path

theorem restores_iff : Restores base operations ↔ ∀ path ≠ "package.json",
    (lastOn operations path).elim (textAt base path) FileOperation.text = textAt base path := by
  refine forall₂_congr fun path _ => ?_
  cases lastOn operations path with
  | none => simp
  | some operation => simp

/-- What is produced is the base exactly when nothing is refused, the last operations restore the
base, and the package data and the text that the server writes for it are those of the base. -/
theorem produced_same_iff (hstored : StoredFiles task.baseFiles)
    (hpackage : task.basePackageJson = some pkg)
    (hbase : HasRecords pkg.dependencies pkg.devDependencies)
    (hgenerated : HasRecords generated.dependencies generated.devDependencies)
    (htext : ∀ operation ∈ generated.operations, ∀ content, operation.text = some content →
      NUL ∉ content.toList) :
    (∃ files packageJson,
        produced (projectContent localeCompare others) task generated = .ok (files, packageJson) ∧
          (∀ path, textAt files path = textAt task.baseFiles path) ∧
          SamePackage packageJson pkg) ↔
      AllAccepted task.baseFiles generated.operations ∧
        Restores task.baseFiles generated.operations ∧ PackageKept pkg generated ∧
        textAt task.baseFiles "package.json" = some (serverText localeCompare pkg) := by
  have hresult : ∀ {files}, applyFileOperations localeCompare task.baseFiles generated.operations
      task.generatedByRunId = .ok files → WellKept files ∧ ∀ path, textAt files path =
        (lastOn generated.operations path).elim (textAt task.baseFiles path)
          FileOperation.text := by
    intro files hfiles
    obtain ⟨hkept, hcontent⟩ := applyFileOperations_result hfiles
    refine ⟨hkept, fun path => ?_⟩
    rw [textAt, hcontent, contentAt_text hstored.nodup hstored.normal]
  constructor
  · rintro ⟨files, packageJson, hproduced, hsame, hpackages⟩
    obtain ⟨applied, happlied, hproduced⟩ := bind_ok hproduced
    obtain ⟨written, hwritten, hproduced⟩ := bind_ok hproduced
    cases hproduced
    obtain ⟨hkept, happliedText⟩ := hresult happlied
    have hwrittenText := writeServerPackageJson_text hkept hwritten
    rw [hpackage] at hpackages hwrittenText
    have hpackageKept := (samePackage_merge_iff hbase hgenerated).mp hpackages
    refine ⟨(allAccepted_iff hstored htext).mpr ⟨_, happlied⟩, ?_, hpackageKept, ?_⟩
    · rw [restores_iff]
      intro path hpath
      rw [← happliedText, ← hsame path, hwrittenText, if_neg hpath]
    · rw [← hsame, hwrittenText, if_pos rfl, serverText, ← hpackageKept.merge_eq hbase]
      rfl
  · rintro ⟨haccepted, hrestores, hpackageKept, hserver⟩
    obtain ⟨applied, happlied⟩ := (@allAccepted_iff task.baseFiles generated.operations
      task.generatedByRunId localeCompare hstored htext).mp haccepted
    obtain ⟨hkept, happliedText⟩ := hresult happlied
    rw [restores_iff] at hrestores
    have hmerge : mergeProjectPackageJson localeCompare task.basePackageJson generated =
        serverPackage localeCompare pkg := by
      rw [hpackage]
      exact hpackageKept.merge_eq hbase
    have hdrive : ∀ file ∈ applied, Path.win32IsAbsolute file.path.toList = false := by
      intro file hfile
      by_cases hpath : file.path = "package.json"
      · rw [hpath]
        decide
      · have hthere : (textAt applied file.path).isSome = true := by
          rw [textAt, Option.isSome_map, contentOf_isSome_iff]
          exact ⟨file, hfile, rfl⟩
        rw [happliedText, hrestores _ hpath, textAt, Option.isSome_map, contentOf_isSome_iff]
          at hthere
        obtain ⟨stored, hmem, hsame⟩ := hthere
        rw [← hsame]
        exact win32IsAbsolute_of_canonical (hstored.canonical stored hmem)
    have hnul : NUL ∉ (serverText localeCompare pkg).toList := by
      obtain ⟨content, hcontent, hfirst⟩ := Option.map_eq_some_iff.mp hserver
      obtain ⟨file, hfile, rfl⟩ := Option.map_eq_some_iff.mp hcontent
      rw [← hfirst]
      exact hstored.text file (List.mem_of_find?_eq_some hfile)
    obtain ⟨written, hwritten⟩ := @writeServerPackageJson_ok applied
      (serverPackage localeCompare pkg) localeCompare others hkept hdrive hnul
      task.generatedByRunId
    refine ⟨written, serverPackage localeCompare pkg, ?_, fun path => ?_, ?_⟩
    · change (applyFileOperations localeCompare task.baseFiles generated.operations
        task.generatedByRunId).bind _ = _
      rw [happlied]
      change (writeServerPackageJson (projectContent localeCompare others) applied
        (mergeProjectPackageJson localeCompare task.basePackageJson generated)
        task.generatedByRunId).bind _ = _
      rw [hmerge, hwritten]
      change Except.ok (written, mergeProjectPackageJson localeCompare task.basePackageJson
        generated) = _
      rw [hmerge]
    · rw [writeServerPackageJson_text hkept hwritten]
      split_ifs with hpath
      · rw [hpath, hserver, serverText]
      · rw [happliedText, hrestores path hpath]
    · rw [← hpackageKept.merge_eq hbase]
      exact (samePackage_merge_iff hbase hgenerated).mpr hpackageKept

end Produced

section Errors
variable {base files : List ProjectFile} {file : ProjectFile} {operation : FileOperation}
  {operations : List FileOperation} {run : Option ObjectId}
  {localeCompare : String → String → Ordering}

/-- An error of this computation is a plain one, without a code. -/
def FailsPlainly {α : Type} (x : Except OrdinaryError α) : Prop :=
  ∀ error, x = .error error → ∃ message, error = plainError message

theorem FailsPlainly.bind {α β : Type} {x : Except OrdinaryError α}
    {f : α → Except OrdinaryError β} (hx : FailsPlainly x) (hf : ∀ a, FailsPlainly (f a)) :
    FailsPlainly (x.bind f) := by
  intro error h
  cases x with
  | error _ =>
    cases h
    exact hx error rfl
  | ok a => exact hf a error h

theorem failsPlainly_ok {α : Type} (a : α) : FailsPlainly (.ok a : Except OrdinaryError α) :=
  fun _ h => nomatch h

theorem failsPlainly_plain {α : Type} (message : String) :
    FailsPlainly (.error (plainError message) : Except OrdinaryError α) := by
  intro error h
  cases h
  exact ⟨message, rfl⟩

theorem failsPlainly_foldlM {σ α : Type} {f : σ → α → Except OrdinaryError σ}
    (hf : ∀ s x, FailsPlainly (f s x)) (xs : List α) (s : σ) : FailsPlainly (xs.foldlM f s) := by
  induction xs generalizing s with
  | nil => exact failsPlainly_ok s
  | cons x xs ih =>
    rw [List.foldlM_cons]
    exact (hf s x).bind ih

theorem failsPlainly_normalizeProjectPath (rawPath : String) :
    FailsPlainly (normalizeProjectPath rawPath) := by
  unfold normalizeProjectPath
  split_ifs
  · exact failsPlainly_plain _
  · dsimp only
    split_ifs
    · exact failsPlainly_plain _
    · exact failsPlainly_ok _

theorem failsPlainly_inferProjectFileLanguage (filePath : String) :
    FailsPlainly (inferProjectFileLanguage filePath) := by
  unfold inferProjectFileLanguage
  split
  · exact failsPlainly_ok _
  · exact failsPlainly_plain _

theorem failsPlainly_writeFile (files : List ProjectFile) (normalized content : String) :
    FailsPlainly (writeFile run files normalized content) := by
  refine FailsPlainly.bind ?_ fun _ =>
    (failsPlainly_inferProjectFileLanguage normalized).bind fun _ => failsPlainly_ok _
  unfold assertTextContent
  split_ifs
  · exact failsPlainly_plain _
  · exact failsPlainly_ok _

theorem failsPlainly_applyFileOperation (files : List ProjectFile) (operation : FileOperation) :
    FailsPlainly (applyFileOperation run files operation) := by
  refine (failsPlainly_normalizeProjectPath operation.path).bind fun normalized =>
    (failsPlainly_inferProjectFileLanguage normalized).bind fun _ => ?_
  cases operation with
  | create path content => exact failsPlainly_writeFile files normalized content
  | update path content => exact failsPlainly_writeFile files normalized content
  | delete path =>
    dsimp only
    split_ifs
    · exact failsPlainly_plain _
    · exact failsPlainly_ok _

theorem failsPlainly_applyFileOperations (base : List ProjectFile)
    (operations : List FileOperation) :
    FailsPlainly (applyFileOperations localeCompare base operations run) := by
  have hbase : ∀ files file, FailsPlainly (addBaseFile files file) := fun files file =>
    (failsPlainly_normalizeProjectPath file.path).bind fun normalized =>
      (failsPlainly_inferProjectFileLanguage normalized).bind fun _ => failsPlainly_ok _
  exact (failsPlainly_foldlM hbase base []).bind fun based =>
    (failsPlainly_foldlM failsPlainly_applyFileOperation operations based).bind fun _ =>
      failsPlainly_ok _

theorem failsPlainly_produced {others : ProjectContent} (task : GenerationTask)
    (generated : GenerationResult) :
    FailsPlainly (produced (projectContent localeCompare others) task generated) :=
  (failsPlainly_applyFileOperations task.baseFiles generated.operations).bind fun files =>
    (failsPlainly_applyFileOperations files _).bind fun _ => failsPlainly_ok _

end Errors

section Outcome
variable {σ : Type} {exec : (op : generationApi.Op) → σ → generationApi.Answer op × σ} {s : σ}
  {planned : ModelResult AgentPlan} {generated : ModelResult GenerationResult}
  {content others : ProjectContent} {localeCompare : String → String → Ordering}
  {task : GenerationTask} {value : GenerationResult} {pkg : ProjectSnapshotPackageJson}

/-- The events are taken, and the model answers with this plan and these changes. -/
structure Delivers (exec : (op : generationApi.Op) → σ → generationApi.Answer op × σ)
    (planned : ModelResult AgentPlan) (generated : ModelResult GenerationResult) : Prop where
  onEvent : ∀ event s, (exec (.onEvent event) s).1 = .ok ()
  generatePlan : ∀ context s, (exec (.generatePlan context) s).1 = .ok planned
  generateFiles : ∀ context plan s, (exec (.generateFiles context plan) s).1 = .ok generated

theorem evaluate_call {op : GenerationOp} {reply : op.Reply} {β : Type} {f : op.Reply → Dialogue β}
    (h : (exec op s).1 = .ok reply) :
    ((Dialogue.call op).bind f).evaluate exec s = (f reply).evaluate exec (exec op s).2 := by
  have hcall : (Dialogue.call op).evaluate exec s = (.ok reply, (exec op s).2) := by
    exact (Prog.evaluate_perform exec op s).trans (Prod.ext h rfl)
  exact Prog.evaluate_bind_ok hcall f

theorem evaluate_emitFileChanges (hexec : Delivers exec planned generated)
    (repairAttempt : Option ℕ) (operations : List FileOperation) (s : σ) :
    ((Dialogue.emitFileChanges repairAttempt operations).evaluate exec s).1 = .ok () := by
  unfold Dialogue.emitFileChanges
  induction operations generalizing s with
  | nil => rfl
  | cons operation operations ih =>
    have hevent := @evaluate_call _ exec s (.onEvent
      { type := .fileChanged
        message := operation.type ++ " " ++ operation.path
        payload := some (.fileChanged operation.type operation.path repairAttempt) }) () Unit
      (fun s => Prog.foldEach (fun _ operation => Dialogue.onEvent
        { type := .fileChanged
          message := operation.type ++ " " ++ operation.path
          payload := some (.fileChanged operation.type operation.path repairAttempt) }) s operations)
      (hexec.onEvent _ s)
    exact (congrArg Prod.fst hevent).trans (ih _)

def noEffectiveChangesError : AgentError :=
  { code := .noEffectiveChanges
    message := "The model did not produce any effective file changes" }

/-- How the step ends once the model has answered. -/
def generationResult (content : ProjectContent) (task : GenerationTask)
    (planned : ModelResult AgentPlan) (generated : ModelResult GenerationResult) :
    Except AgentError RunAgentGenerationResult :=
  if task.context.mode = .edit ∧
      hasEffectiveFileChanges task.baseFiles generated.value.operations = false then
    .error noEffectiveChangesError
  else match produced content task generated.value with
    | .ok (files, packageJson) => .ok ⟨files, packageJson, generated.value.message,
        combineUsage planned.usage generated.usage, planned.value⟩
    | .error error => .error error.val

theorem evaluate_runAgentGeneration (content : ProjectContent) (task : GenerationTask)
    (hexec : Delivers exec planned generated) (s : σ) :
    ((Dialogue.runAgentGeneration content task).evaluate exec s).1 =
      generationResult content task planned generated := by
  refine (congrArg Prod.fst (evaluate_call (hexec.onEvent _ _))).trans ?_
  refine (congrArg Prod.fst (evaluate_call (hexec.generatePlan _ _))).trans ?_
  refine (congrArg Prod.fst (evaluate_call (hexec.onEvent _ _))).trans ?_
  refine (congrArg Prod.fst (evaluate_call (hexec.onEvent _ _))).trans ?_
  refine (congrArg Prod.fst (evaluate_call (hexec.generateFiles _ _ _))).trans ?_
  unfold generationResult
  split_ifs with hchanged
  · rfl
  · have hproduced : produced content task generated.value =
        (content.applyFileOperations task.baseFiles generated.value.operations
          task.generatedByRunId).bind fun files => (writeServerPackageJson content files
            (content.mergeProjectPackageJson task.basePackageJson generated.value)
            task.generatedByRunId).bind fun files => .ok (files,
              content.mergeProjectPackageJson task.basePackageJson generated.value) := rfl
    rw [hproduced]
    cases content.applyFileOperations task.baseFiles generated.value.operations
      task.generatedByRunId with
    | error error => rfl
    | ok applied =>
      rw [Except.bind]
      change (Prog.evaluate exec (Prog.bind (Dialogue.settle (writeServerPackageJson content applied
        (content.mergeProjectPackageJson task.basePackageJson generated.value)
        task.generatedByRunId)) _) _).1 = _
      cases writeServerPackageJson content applied
        (content.mergeProjectPackageJson task.basePackageJson generated.value)
        task.generatedByRunId with
      | error error => rfl
      | ok written =>
        have hevents := evaluate_emitFileChanges hexec none generated.value.operations
        exact congrArg Prod.fst (Prog.evaluate_bind_ok (Prod.ext (hevents _) rfl) _)

/-- The step fails with `NO_EFFECTIVE_CHANGES` where the check finds nothing, and only there. -/
theorem generationResult_error_iff (localeCompare : String → String → Ordering)
    (others : ProjectContent) (planned : ModelResult AgentPlan)
    (hmode : task.context.mode = .edit) :
    (∃ error, generationResult (projectContent localeCompare others) task planned generated =
        .error error ∧ error.code = .noEffectiveChanges) ↔
      hasEffectiveFileChanges task.baseFiles generated.value.operations = false := by
  unfold generationResult
  constructor
  · rintro ⟨error, h, hcode⟩
    by_contra hchanged
    rw [if_neg fun hboth => hchanged hboth.2] at h
    cases hproduced : produced (projectContent localeCompare others) task generated.value with
    | ok made =>
      rw [hproduced] at h
      cases h
    | error plain =>
      obtain ⟨message, rfl⟩ := failsPlainly_produced task generated.value plain hproduced
      rw [hproduced] at h
      cases h
      cases hcode
  · intro hchanged
    exact ⟨noEffectiveChangesError, if_pos ⟨hmode, hchanged⟩, rfl⟩

theorem schema_text (h : generationResultSchema value = some generated.value) :
    ∀ operation ∈ generated.value.operations, ∀ content, operation.text = some content →
      NUL ∉ content.toList := by
  intro operation hop content hcontent
  obtain ⟨message, -, h⟩ := Option.bind_eq_some_iff.mp h
  obtain ⟨operations, hoperations, h⟩ := Option.bind_eq_some_iff.mp h
  obtain ⟨dependencies, -, h⟩ := Option.bind_eq_some_iff.mp h
  obtain ⟨devDependencies, -, h⟩ := Option.bind_eq_some_iff.mp h
  have hvalue : generated.value.operations = operations := by
    rw [← Option.some.inj h]
  rw [hvalue] at hop
  obtain ⟨raw, -, hraw⟩ := mem_of_mapM hoperations hop
  have htext : ∀ raw text, textContent raw = some text → NUL ∉ text.toList := by
    intro raw text htext
    unfold textContent at htext
    split_ifs at htext with hnul
    cases htext
    simpa using hnul
  cases raw with
  | create path rawContent | update path rawContent =>
    obtain ⟨checked, -, hraw⟩ := Option.bind_eq_some_iff.mp hraw
    obtain ⟨text, htextContent, hraw⟩ := Option.bind_eq_some_iff.mp hraw
    cases hraw
    cases hcontent
    exact htext _ _ htextContent
  | delete path =>
    obtain ⟨checked, -, hraw⟩ := Option.bind_eq_some_iff.mp hraw
    cases hraw
    cases hcontent

theorem schema_records (h : generationResultSchema value = some generated.value)
    (hvalue : HasRecords value.dependencies value.devDependencies) :
    HasRecords generated.value.dependencies generated.value.devDependencies := by
  obtain ⟨message, -, h⟩ := Option.bind_eq_some_iff.mp h
  obtain ⟨operations, -, h⟩ := Option.bind_eq_some_iff.mp h
  obtain ⟨dependencies, hdependencies, h⟩ := Option.bind_eq_some_iff.mp h
  obtain ⟨devDependencies, hdevDependencies, h⟩ := Option.bind_eq_some_iff.mp h
  have hkeys : ∀ (entries checked : List (String × String)),
      dependencyMapSchema entries = some checked → checked.map (·.1) = entries.map (·.1) := by
    intro entries
    induction entries with
    | nil =>
      intro checked hchecked
      cases hchecked
      rfl
    | cons entry entries ih =>
      intro checked hchecked
      unfold dependencyMapSchema at hchecked ih
      rw [List.mapM_cons] at hchecked
      obtain ⟨first, hfirst, hchecked⟩ := Option.bind_eq_some_iff.mp hchecked
      obtain ⟨rest, hrest, hchecked⟩ := Option.bind_eq_some_iff.mp hchecked
      cases hchecked
      obtain ⟨version, -, rfl⟩ := Option.map_eq_some_iff.mp hfirst
      rw [List.map_cons, List.map_cons, ih rest hrest]
  rw [← Option.some.inj h]
  constructor
  · rw [IsRecord, hkeys _ _ hdependencies]
    exact hvalue.dependencies
  · rw [IsRecord, hkeys _ _ hdevDependencies]
    exact hvalue.devDependencies

/-- Each operation by itself, under the path as it is spelled, gives the base what it has. -/
def UnchangedAsSpelled (base : List ProjectFile) (operations : List FileOperation) : Prop :=
  ∀ operation ∈ operations, operation.text = textAt base (forwardSlashes operation.path)

/-- Nothing else changes either: nothing is refused, the dependencies are those of the base, whose
`package.json` is the server's, and no path of the base is deleted under another spelling. -/
structure UnchangedOtherwise (localeCompare : String → String → Ordering) (base : List ProjectFile)
    (pkg : ProjectSnapshotPackageJson) (generated : GenerationResult) : Prop where
  accepted : AllAccepted base generated.operations
  package : PackageKept pkg generated
  text : textAt base "package.json" = some (serverText localeCompare pkg)
  deletes : ∀ path operation, lastOn generated.operations path = some operation →
    operation.isDelete = true → textAt base path = none

/-- Something is refused or changes in the end. -/
def ChangedAfterAll (localeCompare : String → String → Ordering) (base : List ProjectFile)
    (pkg : ProjectSnapshotPackageJson) (generated : GenerationResult) : Prop :=
  ¬AllAccepted base generated.operations ∨ ¬PackageKept pkg generated ∨
    textAt base "package.json" ≠ some (serverText localeCompare pkg) ∨
    ∃ path ≠ "package.json", ∃ operation, lastOn generated.operations path = some operation ∧
      operation.text ≠ textAt base path

theorem lastOn_spec {operations : List FileOperation} {path : String} {operation : FileOperation}
    (h : lastOn operations path = some operation) :
    operation ∈ operations ∧ normalizedPath operation.path = path :=
  ⟨List.mem_reverse.mp (List.mem_of_find?_eq_some h), by simpa using List.find?_some h⟩

/-- A path that the base has as it is spelled is its own normal form. -/
theorem normalizedPath_of_spelled {base : List ProjectFile} {rawPath : String}
    (hstored : StoredFiles base) (h : (textAt base (forwardSlashes rawPath)).isSome = true) :
    normalizedPath rawPath = forwardSlashes rawPath := by
  rw [textAt, Option.isSome_map, contentOf_isSome_iff] at h
  obtain ⟨file, hfile, hpath⟩ := h
  have hnormal := (hstored.normal file hfile).normalize_eq
  have hslashes : (forwardSlashes rawPath).toList = slashes rawPath.toList := String.toList_map
  rw [hpath, hslashes] at hnormal
  rw [normalizedPath, hnormal, ← hslashes, String.ofList_toList]

theorem restores_iff_deletes {base : List ProjectFile} {operations : List FileOperation}
    (hstored : StoredFiles base) (hspelled : UnchangedAsSpelled base operations)
    (haccepted : AllAccepted base operations) :
    Restores base operations ↔ ∀ path operation, lastOn operations path = some operation →
      operation.isDelete = true → textAt base path = none := by
  constructor
  · intro hrestores path operation hlast hdelete
    obtain ⟨hop, hpath⟩ := lastOn_spec hlast
    by_cases hpackage : path = "package.json"
    · have hrequired := (haccepted.operations operation hop).required hdelete
      rw [hpath, hpackage] at hrequired
      exact absurd hrequired (by decide)
    · rw [← hrestores path hpackage operation hlast]
      cases operation with
      | create _ _ => cases hdelete
      | update _ _ => cases hdelete
      | delete _ => rfl
  · intro hdeletes path _ operation hlast
    obtain ⟨hop, hpath⟩ := lastOn_spec hlast
    have htext := hspelled operation hop
    have hwrite : operation.text.isSome = true → operation.text = textAt base path := by
      intro hsome
      rw [htext] at hsome
      rw [htext, ← hpath, normalizedPath_of_spelled hstored hsome]
    cases operation with
    | create _ _ => exact hwrite rfl
    | update _ _ => exact hwrite rfl
    | delete _ => exact (hdeletes path _ hlast rfl).symm

/-- An edit fails with `NO_EFFECTIVE_CHANGES` exactly where it would produce the base, if and only
if either nothing changes as it is spelled and nothing changes otherwise, or something changes as
it is spelled and something changes after all. -/
theorem no_effective_changes_iff (hmode : task.context.mode = .edit)
    (hstored : StoredFiles task.baseFiles) (hpackage : task.basePackageJson = some pkg)
    (hbase : HasRecords pkg.dependencies pkg.devDependencies)
    (hschema : generationResultSchema value = some generated.value)
    (hvalue : HasRecords value.dependencies value.devDependencies)
    (hexec : Delivers exec planned generated) :
    ((∃ error, ((Dialogue.runAgentGeneration (projectContent localeCompare others)
          task).evaluate exec s).1 = .error error ∧ error.code = .noEffectiveChanges) ↔
        ∃ files packageJson, produced (projectContent localeCompare others) task generated.value =
            .ok (files, packageJson) ∧
          (∀ path, textAt files path = textAt task.baseFiles path) ∧
          SamePackage packageJson pkg) ↔
      UnchangedAsSpelled task.baseFiles generated.value.operations ∧
          UnchangedOtherwise localeCompare task.baseFiles pkg generated.value ∨
        ¬UnchangedAsSpelled task.baseFiles generated.value.operations ∧
          ChangedAfterAll localeCompare task.baseFiles pkg generated.value := by
  have hfails : (∃ error, ((Dialogue.runAgentGeneration (projectContent localeCompare others)
        task).evaluate exec s).1 = .error error ∧ error.code = .noEffectiveChanges) ↔
      UnchangedAsSpelled task.baseFiles generated.value.operations := by
    have hresult := evaluate_runAgentGeneration (projectContent localeCompare others) task hexec s
    refine Iff.trans ?_ ((generationResult_error_iff localeCompare others planned hmode).trans
      (hasEffectiveFileChanges_eq_false_iff hstored))
    exact exists_congr fun error => and_congr_left fun _ =>
      ⟨fun h => hresult.symm.trans h, fun h => hresult.trans h⟩
  refine (iff_congr hfails (produced_same_iff hstored hpackage hbase
    (schema_records hschema hvalue) (schema_text hschema))).trans ?_
  constructor
  · intro h
    by_cases hspelled : UnchangedAsSpelled task.baseFiles generated.value.operations
    · obtain ⟨haccepted, hrestores, hkept, htext⟩ := h.mp hspelled
      exact .inl ⟨hspelled, haccepted, hkept, htext,
        (restores_iff_deletes hstored hspelled haccepted).mp hrestores⟩
    · refine .inr ⟨hspelled, ?_⟩
      by_contra hsame
      simp only [ChangedAfterAll, not_or, not_not, not_exists, not_and] at hsame
      obtain ⟨haccepted, hkept, htext, hrestores⟩ := hsame
      exact hspelled (h.mpr ⟨haccepted, fun path hpath operation hlast =>
        hrestores path hpath operation hlast, hkept, htext⟩)
  · rintro (⟨hspelled, haccepted, hkept, htext, hdeletes⟩ | ⟨hspelled, hchanged⟩)
    · refine iff_of_true hspelled ⟨haccepted, ?_, hkept, htext⟩
      exact (restores_iff_deletes hstored hspelled haccepted).mpr hdeletes
    · refine iff_of_false hspelled ?_
      rintro ⟨haccepted, hrestores, hkept, htext⟩
      rcases hchanged with h | h | h | ⟨path, hpath, operation, hlast, h⟩
      · exact h haccepted
      · exact h hkept
      · exact h htext
      · exact h (hrestores path hpath operation hlast)

end Outcome

section Samples

private def storedPackage : ProjectSnapshotPackageJson where
  dependencies := requiredDependencies
  devDependencies := requiredDevDependencies
  scripts := serverScripts

private def storedProject : List ProjectFile :=
  [⟨"package.json", stringifyPackageJson storedPackage ++ "\n", .json, none⟩]

private def editTask : GenerationTask where
  context := ⟨"Change it", .edit, "Project", [], []⟩
  baseFiles := storedProject
  basePackageJson := some storedPackage
  generatedByRunId := some 1
  hasRepairDependencies := true
  runId := 1
  sandboxScope := ⟨some 1, 1, some 1, 1, 1, 0⟩
  maxRepairAttempts := 2

private def emptyContent : ProjectContent where
  buildAgentContext _ _ _ _ := editTask.context
  resolveProjectBaseFiles files := files.getD []
  mergeProjectPackageJson _ _ := storedPackage
  applyFileOperations files _ _ := .ok files
  stringifyPackageJson _ := ""
  diagnosticFingerprint _ := ""

private def plan : ModelResult AgentPlan := ⟨⟨"Plan", [], []⟩, none⟩

private def changes (operations : List FileOperation) (dependencies : List (String × String)) :
    ModelResult GenerationResult :=
  ⟨⟨"Done", operations, dependencies, []⟩, none⟩

/-- A model client and events without memory. -/
private def answering (generated : ModelResult GenerationResult) :
    (op : generationApi.Op) → Unit → generationApi.Answer op × Unit
  | .onEvent _, _ => (.ok (), ())
  | .generatePlan _, _ => (.ok plan, ())
  | .generateFiles _ _, _ => (.ok generated, ())
  | .repairFiles _, _ => (.ok generated, ())
  | .repairDependencies _, _ => (.ok generated, ())
  | .validate _, _ => (.error noEffectiveChangesError, ())

private theorem answering_delivers (generated : ModelResult GenerationResult) :
    Delivers (answering generated) plan generated :=
  ⟨fun _ _ => rfl, fun _ _ => rfl, fun _ _ _ => rfl⟩

private theorem stored_storedProject : StoredFiles editTask.baseFiles := by
  refine ⟨List.nodup_singleton _, fun file hfile => ?_, fun file hfile => ?_⟩
  · rw [List.mem_singleton.mp hfile]
    have hpath : canonicalPath "package.json".toList = .ok "package.json".toList := by decide
    exact (canonicalPath_spec hpath).2
  · rw [List.mem_singleton.mp hfile, String.toList_append, stringifyPackageJson,
      String.toList_ofList]
    decide +kernel

private theorem records_storedPackage :
    HasRecords storedPackage.dependencies storedPackage.devDependencies := isRecord_required

private theorem records_changes {dependencies : List (String × String)}
    (h : IsRecord dependencies) (operations : List FileOperation) :
    HasRecords (changes operations dependencies).value.dependencies
      (changes operations dependencies).value.devDependencies := ⟨h, List.nodup_nil⟩

/-- A note that is added is produced, and the step does not fail. -/
theorem note_effective :
    (∃ error, ((Dialogue.runAgentGeneration (projectContent compareTexts emptyContent)
          editTask).evaluate (answering (changes [.create "notes.md" ""] [])) ()).1 =
            .error error ∧ error.code = .noEffectiveChanges) ↔
      ∃ files packageJson, produced (projectContent compareTexts emptyContent) editTask
          (changes [.create "notes.md" ""] []).value = .ok (files, packageJson) ∧
        (∀ path, textAt files path = textAt storedProject path) ∧
        SamePackage packageJson storedPackage := by
  have hschema : generationResultSchema (changes [.create "notes.md" ""] []).value =
      some (changes [.create "notes.md" ""] []).value := by decide
  have hrecords : IsRecord [] := List.nodup_nil
  refine (no_effective_changes_iff rfl stored_storedProject rfl records_storedPackage hschema
    (records_changes hrecords _) (answering_delivers _)).mpr (.inr ⟨fun h => ?_, ?_⟩)
  · exact absurd (h _ List.mem_cons_self) (by decide +kernel)
  · exact .inr (.inr (.inr ⟨"notes.md", by decide, .create "notes.md" "", by decide,
      by decide⟩))

/-- An edit of the dependencies alone is refused, though it would change the package data. -/
theorem dependency_edit_refused :
    ¬((∃ error, ((Dialogue.runAgentGeneration (projectContent compareTexts emptyContent)
          editTask).evaluate (answering (changes [] [("zod", "^3.23.0")])) ()).1 =
            .error error ∧ error.code = .noEffectiveChanges) ↔
      ∃ files packageJson, produced (projectContent compareTexts emptyContent) editTask
          (changes [] [("zod", "^3.23.0")]).value = .ok (files, packageJson) ∧
        (∀ path, textAt files path = textAt storedProject path) ∧
        SamePackage packageJson storedPackage) := by
  intro h
  have hrefused : ((Dialogue.runAgentGeneration (projectContent compareTexts emptyContent)
      editTask).evaluate (answering (changes [] [("zod", "^3.23.0")])) ()).1 =
      .error noEffectiveChangesError := rfl
  have hrecords : IsRecord [("zod", "^3.23.0")] := List.nodup_singleton _
  have hkept := (produced_same_iff stored_storedProject rfl records_storedPackage
    (records_changes hrecords []) fun operation hop => (nomatch hop)).mp
      (h.mp ⟨_, hrefused, rfl⟩)
  have hzod := hkept.2.2.1.dependencies.generated _ List.mem_cons_self
  exact absurd hzod (by decide)

end Samples

end AppBuilder.Agent
