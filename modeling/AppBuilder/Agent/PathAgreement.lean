import AppBuilder.Agent.PathContainment

/-! The paths that leave `applyFileOperations`, and the places that have to take them. -/
namespace AppBuilder.Agent
open Encoding Artifacts Sandbox
open Encoding.Path (IsPlain Plain segments)

/-- A path as `applyFileOperations` makes them. -/
structure ProjectPath (path : Text) : Prop where
  plain : IsPlain path
  noBackslash : '\\' ∉ path
  extension : supportedExtension path = true

/-- What the places that take a path ask for beyond that. -/
structure Portable (path : Text) : Prop where
  trimmed : trim path = path
  noNul : NUL ∉ path
  noDrive : hasDriveLetter path = false

section Places

variable {path : Text}

theorem hasDriveLetter_of_hasDriveRoot (h : hasDriveRoot path = true) :
    hasDriveLetter path = true := by
  unfold hasDriveRoot at h
  split at h
  · exact h
  · cases h

theorem ProjectPath.canonical_iff (h : ProjectPath path) : CanonicalPath path ↔
    trim path = path ∧ NUL ∉ path ∧ hasDriveRoot path = false :=
  ⟨fun hc => ⟨hc.trimmed, hc.noNul, hc.noDriveRoot⟩,
    fun ⟨htrim, hnul, hdrive⟩ => ⟨h.noBackslash, htrim, h.plain, hdrive, hnul, h.extension⟩⟩

theorem ProjectPath.sandbox_iff {filePath : String} (h : ProjectPath filePath.toList) :
    normalizeSandboxRelativePath filePath = .ok filePath ↔
      NUL ∉ filePath.toList ∧ hasDriveLetter filePath.toList = false := by
  rw [normalizeSandboxRelativePath_iff, slashes_eq_self h.noBackslash, String.ofList_toList]
  simp [h.plain]

/-- A validation workspace takes every plain path. -/
theorem ProjectPath.resolveFilePath_eq {filePath : String} (h : ProjectPath filePath.toList)
    {cwd workspacePath : Text} (habs : Path.isAbsolute workspacePath = true)
    (hroot : Path.resolve cwd [workspacePath] ≠ ['/']) :
    resolveFilePath cwd workspacePath filePath =
      .ok (Path.resolve cwd [workspacePath] ++ '/' :: filePath.toList) := by
  have htarget := Path.resolve_child habs hroot h.plain
  have hinside : startsWith (Path.resolve cwd [workspacePath] ++ '/' :: filePath.toList)
      (Path.resolve cwd [workspacePath] ++ ['/']) = true := by
    rw [startsWith, List.isPrefixOf_iff_prefix]
    exact ⟨filePath.toList, by simp⟩
  simp only [resolveFilePath, slashes_eq_self h.noBackslash, htarget, hinside,
    Path.isAbsolute_of_plain h.plain]
  rfl

end Places

section Workspace

variable {cwd root runId random : Text}

theorem noSlash_of_validRunId (h : validRunId runId = true) : '/' ∉ runId := by
  intro hmem
  have hall := (Bool.and_eq_true_iff.mp h).2
  have hslash := List.all_eq_true.mp hall '/' hmem
  revert hslash
  decide

/-- The last segment of a workspace is the name that `mkdtemp` made. -/
theorem workspacePath_suffix (hrunId : validRunId runId = true) :
    Path.isAbsolute (workspacePath cwd root runId random) = true ∧
      (runId ++ ['-']) ++ random <:+ workspacePath cwd root runId random := by
  have hslash : '/' ∉ runId ++ ['-'] := by
    simpa using noSlash_of_validRunId hrunId
  have hname : segments (runId ++ ['-']) = [runId ++ ['-']] := List.splitOn_eq_singleton hslash
  have hplain : Plain (runId ++ ['-']) := by
    refine ⟨hslash, by simp, ?_, ?_⟩
    · intro he
      have hlast := congrArg List.getLast? he
      simp [Path.dot] at hlast
    · intro he
      have hlast := congrArg List.getLast? he
      simp [Path.dotDot] at hlast
  have hsegments : segments (Path.resolve cwd [root] ++ '/' :: (runId ++ ['-'])) =
      segments (Path.resolve cwd [root]) ++ [runId ++ ['-']] := by
    rw [Path.segments_cons_slash, hname]
  obtain ⟨rest, hrest⟩ := (@Path.foldl_enter_last false (segments (Path.resolve cwd [root]))) hplain
  have hnormal : Path.normalizeString (Path.resolve cwd [root] ++ '/' :: (runId ++ ['-'])) false =
      Path.joined (rest ++ [runId ++ ['-']]) := by
    rw [Path.normalizeString, hsegments, hrest]
  have hsuffix := Path.suffix_joined rest (runId ++ ['-'])
  have hne : Path.joined (rest ++ [runId ++ ['-']]) ≠ [] := by
    intro he
    rw [he] at hsuffix
    simp at hsuffix
  have hpath : workspacePath cwd root runId random =
      '/' :: Path.joined (rest ++ [runId ++ ['-']]) ++ random := by
    have hlast : (Path.resolve cwd [root] ++ '/' :: (runId ++ ['-'])).getLast? = some '-' := by
      simp [List.getLast?_append, List.getLast?_cons]
    have habs : Path.isAbsolute (Path.resolve cwd [root] ++ '/' :: (runId ++ ['-'])) = true := rfl
    unfold workspacePath Path.normalize
    simp [hlast, habs, hnormal, hne]
  rw [hpath]
  refine ⟨rfl, ?_⟩
  obtain ⟨before, hbefore⟩ := hsuffix
  exact ⟨'/' :: before, by rw [← hbefore]; simp⟩

theorem workspacePath_below (hrunId : validRunId runId = true) (hrandom : '/' ∉ random) :
    Path.isAbsolute (workspacePath cwd root runId random) = true ∧
      Path.resolve cwd [workspacePath cwd root runId random] ≠ ['/'] := by
  obtain ⟨habs, hsuffix⟩ := (@workspacePath_suffix cwd root _ random) hrunId
  refine ⟨habs, ?_⟩
  have hslash : '/' ∉ (runId ++ ['-']) ++ random := by
    simp [noSlash_of_validRunId hrunId, hrandom]
  obtain ⟨init, last, heq, hlast⟩ := Path.segments_last hslash hsuffix
  have hdash : '-' ∈ last := hlast.subset (by simp)
  have hplain : Plain last := by
    refine ⟨Path.not_mem_of_mem_segments (heq ▸ List.mem_append_right _ List.mem_cons_self),
      ?_, ?_, ?_⟩
    · rintro rfl
      cases hdash
    · rintro rfl
      revert hdash
      decide
    · rintro rfl
      revert hdash
      decide
  obtain ⟨rest, hrest⟩ := (@Path.foldl_enter_last false init) hplain
  rw [Path.resolve_absolute habs, heq, hrest]
  intro he
  obtain ⟨before, hbefore⟩ := Path.suffix_joined rest last
  rw [← hbefore] at he
  have hnil : before ++ last = [] := by simpa using he
  exact hplain.ne_nil (List.append_eq_nil_iff.mp hnil).2

end Workspace

section Operations

/-- The path that `normalizeProjectPath` makes of a path that it takes. -/
def normalizedPath (rawPath : String) : String :=
  String.ofList (Path.normalize (slashes rawPath.toList))

def FileOperation.isDelete : FileOperation → Bool
  | .delete _ => true
  | .create .. | .update .. => false

/-- Whether a path is there after an operation. -/
def thereAfter (path : String) (there : Bool) (operation : FileOperation) : Bool :=
  if normalizedPath operation.path == path then !operation.isDelete else there

/-- The path is written by a base file or an operation, and no later operation deletes it. -/
def remains (baseFiles : List ProjectFile) (operations : List FileOperation) (path : String) :
    Bool :=
  operations.foldl (thereAfter path) (baseFiles.any fun file => normalizedPath file.path == path)

theorem normalizeProjectPath_spec {rawPath normalized : String}
    (h : normalizeProjectPath rawPath = .ok normalized) :
    normalized = normalizedPath rawPath ∧ Path.isAbsolute rawPath.toList = false ∧
      Path.win32IsAbsolute rawPath.toList = false ∧ normalized.toList ≠ Path.dot ∧
      normalized.toList ≠ Path.dotDot ∧ ¬ Path.dotDot ++ ['/'] <+: normalized.toList := by
  simp only [normalizeProjectPath] at h
  split_ifs at h with habs hescapes
  simp only [Except.ok.injEq] at h
  subst h
  simp only [Bool.not_eq_true, Bool.or_eq_false_iff, decide_eq_false_iff_not] at habs hescapes
  rw [String.toList_ofList]
  refine ⟨rfl, habs.1, habs.2, hescapes.1.1, hescapes.2, fun hp => ?_⟩
  have hstarts : startsWith (Path.normalize (slashes rawPath.toList)) (text "../") = true :=
    List.isPrefixOf_iff_prefix.mpr hp
  rw [hstarts] at hescapes
  exact absurd hescapes.1.2 (by simp)

theorem bind_ok {ε α β : Type} {x : Except ε α} {f : α → Except ε β} {b : β}
    (h : x.bind f = .ok b) : ∃ a, x = .ok a ∧ f a = .ok b := by
  cases x with
  | error e => cases h
  | ok a => exact ⟨a, rfl, h⟩

theorem any_setProjectFile (files : List ProjectFile) (file : ProjectFile) (path : String) :
    (setProjectFile files file).any (·.path == path) =
      (file.path == path || files.any (·.path == path)) := by
  unfold setProjectFile
  split_ifs with hany
  · rw [List.any_map]
    have hsame : ∀ f : ProjectFile,
        (if f.path == file.path then file else f).path = f.path := by
      intro f
      split_ifs with he
      · exact (beq_iff_eq.mp he).symm
      · rfl
    simp only [Function.comp_def, hsame]
    by_cases hp : file.path = path
    · simp [← hp, hany]
    · simp [hp]
  · rw [List.any_append, Bool.or_comm]
    simp

/-- The path of an operation or a base file that was accepted. -/
def Accepts (rawPath : String) : Prop :=
  normalizeProjectPath rawPath = .ok (normalizedPath rawPath)

theorem accepts_of_ok {rawPath normalized : String}
    (h : normalizeProjectPath rawPath = .ok normalized) :
    Accepts rawPath ∧ normalized = normalizedPath rawPath := by
  have heq := (normalizeProjectPath_spec h).1
  refine ⟨?_, heq⟩
  rw [Accepts, ← heq]
  exact h

theorem addBaseFile_spec {files files' : List ProjectFile} {file : ProjectFile}
    (h : addBaseFile files file = .ok files') : Accepts file.path ∧
      ∀ path, files'.any (·.path == path) =
        (normalizedPath file.path == path || files.any (·.path == path)) := by
  obtain ⟨normalized, hnormalized, h⟩ := bind_ok h
  obtain ⟨language, -, h⟩ := bind_ok h
  cases h
  obtain ⟨haccepts, rfl⟩ := accepts_of_ok hnormalized
  exact ⟨haccepts, fun path => any_setProjectFile files _ path⟩

theorem writeFile_spec {files files' : List ProjectFile} {generatedByRunId : Option ObjectId}
    {normalized content : String}
    (h : writeFile generatedByRunId files normalized content = .ok files') (path : String) :
    files'.any (·.path == path) = (normalized == path || files.any (·.path == path)) := by
  obtain ⟨-, -, h⟩ := bind_ok h
  obtain ⟨language, -, h⟩ := bind_ok h
  cases h
  exact any_setProjectFile files _ path

theorem any_deleted (files : List ProjectFile) (deleted path : String) :
    (files.filter (·.path != deleted)).any (·.path == path) =
      if deleted == path then false else files.any (·.path == path) := by
  rw [List.any_filter]
  by_cases hp : deleted = path
  · subst hp
    rw [if_pos (beq_self_eq_true deleted), List.any_eq_false]
    intro f _
    simp [bne]
  · rw [if_neg (by simpa using hp)]
    have hsame : ∀ f : ProjectFile, (f.path != deleted && f.path == path) = (f.path == path) := by
      intro f
      by_cases hf : f.path = path
      · simp [hf, bne, Ne.symm hp]
      · simp [hf]
    simp only [hsame]

/-- The step lemma of the operations. -/
theorem applyFileOperation_spec {files files' : List ProjectFile}
    {generatedByRunId : Option ObjectId} {operation : FileOperation}
    (h : applyFileOperation generatedByRunId files operation = .ok files') :
    Accepts operation.path ∧ ∀ path, files'.any (·.path == path) =
      thereAfter path (files.any (·.path == path)) operation := by
  obtain ⟨normalized, hnormalized, h⟩ := bind_ok h
  obtain ⟨language, -, h⟩ := bind_ok h
  obtain ⟨haccepts, rfl⟩ := accepts_of_ok hnormalized
  refine ⟨haccepts, fun path => ?_⟩
  have hwrite : ∀ content, operation.isDelete = false →
      writeFile generatedByRunId files (normalizedPath operation.path) content = .ok files' →
      files'.any (·.path == path) = thereAfter path (files.any (·.path == path)) operation := by
    intro content hop hw
    rw [writeFile_spec hw, thereAfter, hop]
    split_ifs with hp
    · simp [hp]
    · simp [hp]
  cases operation with
  | create _ content => exact hwrite content rfl h
  | update _ content => exact hwrite content rfl h
  | delete deleted =>
    dsimp only at h
    split_ifs at h with hrequired
    · cases h
      exact any_deleted files (normalizedPath deleted) path

theorem foldlM_spec {ε σ α β : Type} {f : σ → α → Except ε σ} {P : α → Prop} {g : σ → β}
    {step : β → α → β} (hf : ∀ s a s', f s a = .ok s' → P a ∧ g s' = step (g s) a)
    {s s' : σ} {xs : List α} (h : xs.foldlM f s = .ok s') :
    (∀ a ∈ xs, P a) ∧ g s' = xs.foldl step (g s) := by
  induction xs generalizing s with
  | nil =>
    cases h
    exact ⟨fun a ha => (nomatch ha), rfl⟩
  | cons a xs ih =>
    obtain ⟨s₁, hs₁, h⟩ := bind_ok h
    obtain ⟨ha, hg⟩ := hf s a s₁ hs₁
    obtain ⟨hxs, hfold⟩ := ih h
    refine ⟨fun x hx => (List.mem_cons.mp hx).elim (fun he => he ▸ ha) (hxs x), ?_⟩
    rw [hfold, hg]
    rfl

/-- The run lemma: what is there at the end is what remains. -/
theorem applyFileOperations_spec {localeCompare : String → String → Ordering}
    {baseFiles files : List ProjectFile} {operations : List FileOperation}
    {generatedByRunId : Option ObjectId}
    (h : applyFileOperations localeCompare baseFiles operations generatedByRunId = .ok files) :
    (∀ file ∈ baseFiles, Accepts file.path) ∧ (∀ operation ∈ operations, Accepts operation.path) ∧
      ∀ path, files.any (·.path == path) = remains baseFiles operations path := by
  obtain ⟨based, hbased, h⟩ := bind_ok h
  obtain ⟨operated, hoperated, h⟩ := bind_ok h
  cases h
  have hbase := fun path => @foldlM_spec _ _ _ _ _ (fun file : ProjectFile => Accepts file.path)
    (fun files => files.any (·.path == path))
    (fun there file => normalizedPath file.path == path || there)
    (fun s a s' hs => ⟨(addBaseFile_spec hs).1, (addBaseFile_spec hs).2 path⟩) _ _ _ hbased
  have hoperation := fun path => @foldlM_spec _ _ _ _ _ (fun operation : FileOperation =>
    Accepts operation.path) (fun files => files.any (·.path == path)) (thereAfter path)
    (fun s a s' hs => ⟨(applyFileOperation_spec hs).1, (applyFileOperation_spec hs).2 path⟩)
    _ _ _ hoperated
  refine ⟨(hbase "").1, (hoperation "").1, fun path => ?_⟩
  have hany : ∀ (xs : List ProjectFile) (there : Bool), xs.foldl (fun there file =>
      normalizedPath file.path == path || there) there =
      (there || xs.any fun file => normalizedPath file.path == path) := by
    intro xs
    induction xs with
    | nil => simp
    | cons x xs ih =>
      intro there
      rw [List.foldl_cons, ih, List.any_cons, Bool.or_comm (normalizedPath x.path == path),
        Bool.or_assoc]
  have hsorted := List.Perm.any_eq (List.mergeSort_perm operated fun left right =>
    localeCompare left.path right.path != .gt) (f := fun file => file.path == path)
  rw [hsorted, (hoperation path).2, (hbase path).2, hany, remains]
  rfl

/-- What remains comes from a base file or an operation. -/
theorem remains_source {baseFiles : List ProjectFile} {operations : List FileOperation}
    {path : String} (h : remains baseFiles operations path = true) :
    (∃ file ∈ baseFiles, normalizedPath file.path = path) ∨
      ∃ operation ∈ operations, normalizedPath operation.path = path := by
  have hfold : ∀ (xs : List FileOperation) (there : Bool),
      xs.foldl (thereAfter path) there = true →
      there = true ∨ ∃ operation ∈ xs, normalizedPath operation.path = path := by
    intro xs
    induction xs with
    | nil => exact fun there h => .inl h
    | cons x xs ih =>
      intro there h
      rcases ih _ h with hx | ⟨operation, hmem, hpath⟩
      · unfold thereAfter at hx
        split_ifs at hx with hpath
        · exact .inr ⟨x, List.mem_cons_self, beq_iff_eq.mp hpath⟩
        · exact .inl hx
      · exact .inr ⟨operation, List.mem_cons_of_mem _ hmem, hpath⟩
  refine (hfold operations _ h).imp (fun hbase => ?_) id
  obtain ⟨file, hmem, hpath⟩ := List.any_eq_true.mp hbase
  exact ⟨file, hmem, beq_iff_eq.mp hpath⟩

end Operations

section Sources

/-- The path of a file of an artifact. -/
def FromArtifact (file : ProjectFile) : Prop :=
  ∃ rawPath, canonicalPath rawPath = .ok file.path.toList

/-- An artifact's path stays as it is. -/
theorem FromArtifact.projectPath {file : ProjectFile} (h : FromArtifact file) :
    ProjectPath (normalizedPath file.path).toList := by
  obtain ⟨rawPath, hcanonical⟩ := h
  have hpath := (canonicalPath_spec hcanonical).2
  rw [normalizedPath, String.toList_ofList, slashes_eq_self hpath.noBackslash,
    Path.normalize_plain hpath.plain]
  exact ⟨hpath.plain, hpath.noBackslash, hpath.extension⟩

theorem supportedExtension_iff {path : Text} :
    supportedExtension path = true ↔ ∃ ending ∈ supportedEndings, ending <:+ path := by
  simp only [supportedExtension, List.any_eq_true, endsWith, List.isSuffixOf_iff_suffix]

theorem ending_noSlash {ending : Text} (h : ending ∈ supportedEndings) : '/' ∉ ending := by
  revert ending
  decide

theorem ending_length {ending : Text} (h : ending ∈ supportedEndings) : 3 ≤ ending.length := by
  revert ending
  decide

theorem schema_extension {value rawPath : String}
    (h : safeProjectPathSchema value = some rawPath) :
    ∃ ending ∈ supportedEndings, ending <:+ slashes rawPath.toList := by
  obtain ⟨trimmed, -, h⟩ := Option.bind_eq_some_iff.mp h
  simp only at h
  split_ifs at h with haccepted
  cases h
  exact supportedExtension_iff.mp (Bool.and_eq_true_iff.mp haccepted).2

theorem isAbsolute_slashes {path : Text} (h : Path.win32IsAbsolute path = false) :
    Path.isAbsolute (slashes path) = false := by
  cases path with
  | nil => rfl
  | cons c path =>
    by_contra habs
    have hc : (if c = '\\' then '/' else c) = '/' := by simpa [Path.isAbsolute, slashes] using habs
    split_ifs at hc with hs
    · subst hs
      cases h
    · subst hc
      cases h

/-- A path that the schema and the operations accept is a project path. -/
theorem projectPath_of_accepts {value rawPath : String}
    (hschema : safeProjectPathSchema value = some rawPath) (haccepts : Accepts rawPath) :
    ProjectPath (normalizedPath rawPath).toList := by
  obtain ⟨-, -, hwin32, hdot, hup, habove⟩ := normalizeProjectPath_spec haccepts
  obtain ⟨ending, hending, hsuffix⟩ := schema_extension hschema
  rw [normalizedPath, String.toList_ofList] at hdot hup habove ⊢
  have hslash := ending_noSlash hending
  obtain ⟨init, last, hsegments, hlast⟩ := Path.segments_last hslash hsuffix
  have hplain : Plain last := by
    have hlength := (ending_length hending).trans hlast.length_le
    refine ⟨Path.not_mem_of_mem_segments (hsegments ▸ List.mem_append_right _ List.mem_cons_self),
      ?_, ?_, ?_⟩ <;> rintro rfl <;> exact absurd hlength (by decide)
  have hlastPath : last <:+ slashes rawPath.toList := by
    rw [← Path.joined_segments (slashes rawPath.toList), hsegments]
    exact Path.suffix_joined init last
  have hne : slashes rawPath.toList ≠ [] := by
    intro he
    rw [he, List.suffix_nil] at hlastPath
    exact hplain.ne_nil hlastPath
  have htrail : (slashes rawPath.toList).getLast? ≠ some '/' := by
    obtain ⟨before, hbefore⟩ := hlastPath
    rw [← hbefore, List.getLast?_append]
    obtain ⟨c, hc⟩ := Option.isSome_iff_exists.mp (List.getLast?_isSome.mpr hplain.ne_nil)
    rw [hc, Option.some_or]
    rintro he
    cases he
    exact hplain.noSlash (List.mem_of_getLast? hc)
  obtain ⟨hisPlain, hnormal⟩ :=
    Path.normalize_isPlain hne (isAbsolute_slashes hwin32) htrail hdot hup habove
  refine ⟨hisPlain, fun hback => ?_, ?_⟩
  · rw [← Path.joined_segments (Path.normalize _)] at hback
    rcases Path.mem_joined hback with hc | ⟨s, hs, hc⟩
    · cases hc
    · rw [hnormal, List.mem_reverse] at hs
      have hmem := (Path.mem_foldl_enter hs).resolve_left (by simp)
      exact not_mem_slashes (Path.mem_of_mem_segments hmem hc)
  · obtain ⟨rest, hrest⟩ := (@Path.foldl_enter_last true init) hplain
    refine supportedExtension_iff.mpr ⟨ending, hending, hlast.trans ?_⟩
    rw [← Path.joined_segments (Path.normalize _), hnormal, hsegments, hrest]
    exact Path.suffix_joined rest last

theorem mem_of_mapM {α β : Type} {f : α → Option β} {xs : List α} {ys : List β}
    (h : xs.mapM f = some ys) {y : β} (hy : y ∈ ys) : ∃ x ∈ xs, f x = some y := by
  induction xs generalizing ys with
  | nil =>
    rw [List.mapM_nil] at h
    cases h
    cases hy
  | cons x xs ih =>
    rw [List.mapM_cons] at h
    obtain ⟨z, hz, h⟩ := Option.bind_eq_some_iff.mp h
    obtain ⟨zs, hzs, h⟩ := Option.bind_eq_some_iff.mp h
    cases h
    rcases List.mem_cons.mp hy with rfl | hy
    · exact ⟨x, List.mem_cons_self, hz⟩
    · obtain ⟨x', hx', hf⟩ := ih hzs hy
      exact ⟨x', List.mem_cons_of_mem _ hx', hf⟩

theorem fileOperationSchema_path {value operation : FileOperation}
    (h : fileOperationSchema value = some operation) :
    safeProjectPathSchema value.path = some operation.path := by
  cases value with
  | create path content | update path content =>
    obtain ⟨checked, hpath, h⟩ := Option.bind_eq_some_iff.mp h
    obtain ⟨text, -, h⟩ := Option.bind_eq_some_iff.mp h
    cases h
    exact hpath
  | delete path =>
    obtain ⟨checked, hpath, h⟩ := Option.bind_eq_some_iff.mp h
    cases h
    exact hpath

theorem schema_operations {value generated : GenerationResult}
    (h : generationResultSchema value = some generated) {operation : FileOperation}
    (hop : operation ∈ generated.operations) :
    ∃ raw, safeProjectPathSchema raw = some operation.path := by
  obtain ⟨message, -, h⟩ := Option.bind_eq_some_iff.mp h
  obtain ⟨operations, hoperations, h⟩ := Option.bind_eq_some_iff.mp h
  obtain ⟨dependencies, -, h⟩ := Option.bind_eq_some_iff.mp h
  obtain ⟨devDependencies, -, h⟩ := Option.bind_eq_some_iff.mp h
  cases h
  obtain ⟨raw, -, hraw⟩ := mem_of_mapM hoperations hop
  exact ⟨raw.path, fileOperationSchema_path hraw⟩

/-- Every path that remains is a project path. -/
theorem remaining_projectPath {value generated : GenerationResult}
    (hschema : generationResultSchema value = some generated)
    {localeCompare : String → String → Ordering} {baseFiles files : List ProjectFile}
    (hbase : ∀ file ∈ baseFiles, FromArtifact file) {generatedByRunId : Option ObjectId}
    (happly : applyFileOperations localeCompare baseFiles generated.operations generatedByRunId =
      .ok files) {path : String} (h : remains baseFiles generated.operations path = true) :
    ProjectPath path.toList := by
  obtain ⟨-, haccepts, -⟩ := applyFileOperations_spec happly
  rcases remains_source h with ⟨file, hfile, rfl⟩ | ⟨operation, hop, rfl⟩
  · exact (hbase file hfile).projectPath
  · obtain ⟨raw, hraw⟩ := schema_operations hschema hop
    exact projectPath_of_accepts hraw (haccepts operation hop)

end Sources

section Claim

/-- The artifact codec, a sandbox and a validation workspace take the path as it is. -/
structure Accepted (cwd workspacePath : Text) (path : String) : Prop where
  codec : canonicalPath path.toList = .ok path.toList
  sandbox : normalizeSandboxRelativePath path = .ok path
  workspace : resolveFilePath cwd workspacePath path =
    .ok (Path.resolve cwd [workspacePath] ++ '/' :: path.toList)

theorem ProjectPath.accepted_iff {path : String} (h : ProjectPath path.toList)
    {cwd root runId random : Text} (hrunId : validRunId runId = true) (hrandom : '/' ∉ random) :
    Accepted cwd (workspacePath cwd root runId random) path ↔ Portable path.toList := by
  obtain ⟨habs, hroot⟩ := (@workspacePath_below cwd root) hrunId hrandom
  constructor
  · rintro ⟨hcodec, hsandbox, -⟩
    have hcanonical := h.canonical_iff.mp (canonicalPath_self_iff.mp hcodec)
    exact ⟨hcanonical.1, hcanonical.2.1, (h.sandbox_iff.mp hsandbox).2⟩
  · rintro ⟨htrim, hnul, hdrive⟩
    have hdriveRoot : hasDriveRoot path.toList = false := by
      by_contra hroot
      rw [hasDriveLetter_of_hasDriveRoot (by simpa using hroot)] at hdrive
      cases hdrive
    exact ⟨canonicalPath_of_canonical (h.canonical_iff.mpr ⟨htrim, hnul, hdriveRoot⟩),
      h.sandbox_iff.mpr ⟨hnul, hdrive⟩, h.resolveFilePath_eq habs hroot⟩

/-- What the model generates can be validated and stored exactly when the paths that remain are
portable. -/
theorem generated_files_accepted_iff {value generated : GenerationResult}
    (hschema : generationResultSchema value = some generated)
    {localeCompare : String → String → Ordering} {baseFiles files : List ProjectFile}
    (hbase : ∀ file ∈ baseFiles, FromArtifact file) {generatedByRunId : Option ObjectId}
    (happly : applyFileOperations localeCompare baseFiles generated.operations generatedByRunId =
      .ok files) {cwd root runId random : Text} (hrunId : validRunId runId = true)
    (hrandom : '/' ∉ random) :
    (∀ file ∈ files, Accepted cwd (workspacePath cwd root runId random) file.path) ↔
      ∀ path, remains baseFiles generated.operations path = true → Portable path.toList := by
  have hthere : ∀ path, (∃ file ∈ files, file.path = path) ↔
      remains baseFiles generated.operations path = true := by
    intro path
    rw [← (applyFileOperations_spec happly).2.2 path, List.any_eq_true]
    simp only [beq_iff_eq]
  have hpath := fun path h => @remaining_projectPath _ _ hschema _ _ _ hbase _ happly path h
  constructor
  · intro h path hremains
    obtain ⟨file, hfile, rfl⟩ := (hthere path).mpr hremains
    exact ((hpath _ hremains).accepted_iff hrunId hrandom).mp (h file hfile)
  · intro h file hfile
    have hremains := (hthere file.path).mp ⟨file, hfile, rfl⟩
    exact ((hpath _ hremains).accepted_iff hrunId hrandom).mpr (h _ hremains)

end Claim

section Samples

private def creating (path : String) : GenerationResult where
  message := "Done"
  operations := [.create path ""]
  dependencies := []
  devDependencies := []

private def created (path : String) : ProjectFile := ⟨path, "", .md, none⟩

private theorem apply_creating {localeCompare : String → String → Ordering} {path : String}
    (h : applyFileOperation none [] (.create path "") = .ok [created path]) :
    applyFileOperations localeCompare [] (creating path).operations none = .ok [created path] := by
  have hfold : (creating path).operations.foldlM (applyFileOperation none) [] =
      .ok [created path] := by
    rw [creating, List.foldlM_cons, h]
    rfl
  change ((creating path).operations.foldlM (applyFileOperation none) []).bind _ = _
  rw [hfold]
  exact congrArg Except.ok (List.mergeSort_singleton _)

theorem generated_notes_accepted :
    Accepted (text "/") (workspacePath (text "/") (text "/tmp") (text "run-1") (text "Xq3fZk"))
      (created "notes.md").path := by
  refine (@generated_files_accepted_iff (creating "notes.md") _ (by decide) (fun _ _ => .eq) []
    _ (fun _ hf => (nomatch hf)) _ (apply_creating rfl) _ _ _ _ (by decide) (by decide)).mpr
      (fun path hpath => ?_) _ (List.mem_singleton_self _)
  rcases remains_source hpath with ⟨file, hfile, -⟩ | ⟨operation, hop, rfl⟩
  · cases hfile
  · rw [List.mem_singleton.mp hop]
    exact ⟨by decide, by decide, by decide⟩

/-- A drive letter passes the schema and the codec, but no sandbox takes it. -/
theorem generated_drive_refused : ¬ ∀ (value generated : GenerationResult)
    (localeCompare : String → String → Ordering) (baseFiles files : List ProjectFile)
    (generatedByRunId : Option ObjectId) (cwd root runId random : Text),
    generationResultSchema value = some generated → (∀ file ∈ baseFiles, FromArtifact file) →
    applyFileOperations localeCompare baseFiles generated.operations generatedByRunId = .ok files →
    validRunId runId = true → '/' ∉ random →
    ∀ file ∈ files, Accepted cwd (workspacePath cwd root runId random) file.path := by
  intro h
  have haccepted := h (creating "C:notes.md") (creating "C:notes.md") (fun _ _ => .eq) []
    [created "C:notes.md"] none (text "/") (text "/tmp") (text "run-1") (text "Xq3fZk") (by decide)
    (fun _ hf => (nomatch hf)) (apply_creating rfl) (by decide) (by decide) _
    List.mem_cons_self
  have hdenied : ∀ path, normalizeSandboxRelativePath "C:notes.md" ≠ .ok path := by
    intro path he
    cases he
  exact hdenied _ haccepted.sandbox

end Samples

end AppBuilder.Agent
