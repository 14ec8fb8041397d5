import AppBuilder.Artifacts.Codec
import AppBuilder.Encoding.Hex

/-! `artifacts/bundle.ts`: project bundles, their canonical form and their codec. -/
namespace AppBuilder.Artifacts
open Agent Encoding

structure ArtifactProjectFile where
  path : Text
  content : Text
  language : ProjectFileLanguage
  generatedByRunId : Option Text
  deriving DecidableEq, Repr

/-- Objects whose values are strings, as lists of their properties. -/
structure ArtifactPackageJson where
  dependencies : List (Text × Text)
  devDependencies : List (Text × Text)
  scripts : List (Text × Text)
  deriving DecidableEq, Repr

/-- `version` is `1`. -/
structure ProjectArtifactBundleV1 where
  files : List ArtifactProjectFile
  packageJson : ArtifactPackageJson
  deriving DecidableEq, Repr

def languageName : ProjectFileLanguage → String
  | .ts => "ts"
  | .tsx => "tsx"
  | .js => "js"
  | .css => "css"
  | .json => "json"
  | .html => "html"
  | .md => "md"

def projectFileLanguages : List ProjectFileLanguage := [.ts, .tsx, .js, .css, .json, .html, .md]

def languageOf (s : Text) : Option ProjectFileLanguage :=
  projectFileLanguages.find? fun language => text (languageName language) == s

/-- `/^[a-f\d]{24}$/i` -/
def isObjectIdText (s : Text) : Bool :=
  s.length == 24 && s.all fun c => (Json.hexValue c).isSome

section Canonical

variable {N : Type}

def pathOf (input : Json N) : Except ArtifactError Text :=
  match input with
  | .string rawPath => canonicalPath rawPath
  | _ => fail .invalidPath "Artifact file path must be a non-empty string"

/-- An entry of a map: neither its key nor its value is blank. -/
def entryText (entry : Text × Json N) : Option (Text × Text) :=
  match entry.2 with
  | .string value =>
    if (trim entry.1).length = 0 ∨ (trim value).length = 0 then none else some (entry.1, value)
  | _ => none

def canonicalMap (input : Json N) (name : String) : Except ArtifactError (List (Text × Text)) :=
  match input with
  | .object members =>
    match members.mapM entryText with
    | none => fail .invalidBundle (name ++ " must contain non-empty string keys and values")
    | some entries => .ok (fromEntries (sortByText (·.1) entries))
  | _ => fail .invalidBundle (name ++ " must be an object")

def canonicalPackageJson (input : Json N) : Except ArtifactError ArtifactPackageJson :=
  match input with
  | .object members => do
    let dependencies ← canonicalMap (property members "dependencies") "dependencies"
    let devDependencies ← canonicalMap (property members "devDependencies") "devDependencies"
    let scripts ← canonicalMap (property members "scripts") "scripts"
    return { dependencies, devDependencies, scripts }
  | _ => fail .invalidBundle "packageJson must be an object"

/-- An identifier is given as its text, or as an object that `toHexString` turns into its text. -/
def canonicalRunId (input : Json N) : Except ArtifactError Text :=
  match input with
  | .string serialized =>
    if isObjectIdText serialized then .ok (serialized.map Char.toLower)
    else fail .invalidBundle "generatedByRunId must be an ObjectId string"
  | _ => fail .invalidBundle "generatedByRunId must be an ObjectId string"

/-- `undefined` is left out. -/
def optionalRunId (input : Json N) : Except ArtifactError (Option Text) :=
  match input with
  | .undefined => .ok none
  | input => (canonicalRunId input).map some

def canonicalFile (input : Json N) : Except ArtifactError ArtifactProjectFile :=
  match input with
  | .object members =>
    match property members "content" with
    | .string content =>
      if content.contains NUL then fail .invalidBundle "Artifact file content must be text"
      else match property members "language" with
        | .string s =>
          match languageOf s with
          | none => fail .invalidBundle "Artifact file language is unsupported"
          | some language => do
            let path ← pathOf (property members "path")
            let generatedByRunId ← optionalRunId (property members "generatedByRunId")
            return { path, content, language, generatedByRunId }
        | _ => fail .invalidBundle "Artifact file language is unsupported"
    | _ => fail .invalidBundle "Artifact file content must be text"
  | _ => fail .invalidBundle "Artifact files must be objects"

def canonicalizeBundle [DecidableEq N] (one : N) (input : Json N) :
    Except ArtifactError ProjectArtifactBundleV1 :=
  match input with
  | .object members =>
    if !isNumber (property members "version") one then
      fail .invalidBundle "Artifact bundle version or files are invalid"
    else match elements? (property members "files") with
      | none => fail .invalidBundle "Artifact bundle version or files are invalid"
      | some elements => do
        let files ← elements.mapM canonicalFile
        refuseDuplicates "Duplicate normalized artifact path: " [] (files.map (·.path))
        let packageJson ← canonicalPackageJson (property members "packageJson")
        return { files := sortByText (·.path) files, packageJson }
  | _ => fail .invalidBundle "Artifact bundle must be an object"

def jsonText (s : Text) : Json N := .string s

def jsonMap (entries : List (Text × Text)) : Json N :=
  .object (entries.map fun entry => (entry.1, jsonText entry.2))

def ArtifactProjectFile.toJson (file : ArtifactProjectFile) : Json N :=
  .object ([(text "path", .string file.path), (text "content", .string file.content),
    (text "language", .string (text (languageName file.language)))] ++
    (file.generatedByRunId.map fun runId => (text "generatedByRunId", jsonText runId)).toList)

def ArtifactPackageJson.toJson (packageJson : ArtifactPackageJson) : Json N :=
  .object [(text "dependencies", jsonMap packageJson.dependencies),
    (text "devDependencies", jsonMap packageJson.devDependencies),
    (text "scripts", jsonMap packageJson.scripts)]

def ProjectArtifactBundleV1.toJson (one : N) (bundle : ProjectArtifactBundleV1) : Json N :=
  .object [(text "version", .number one), (text "files", .array (bundle.files.map (·.toJson))),
    (text "packageJson", bundle.packageJson.toJson)]

end Canonical

section Codec

variable {N : Type} [DecidableEq N] (platform : Platform N)

def projectFileCount : String := "Artifact exceeds the file-count limit"

def encodeProjectArtifact (bundle : ProjectArtifactBundleV1) (limits : ArtifactLimits) :
    Except ArtifactError EncodedArtifact := do
  validateLimits limits
  enforceFileCount (bundle.toJson platform.one) limits projectFileCount
  let canonical ← canonicalizeBundle platform.one (bundle.toJson platform.one)
  let uncompressedBytes := jsonBytes platform.numbers (canonical.toJson platform.one)
  if uncompressedBytes.length > limits.maxUncompressedBytes then
    fail .limitExceeded "Artifact exceeds the uncompressed-size limit"
  else
    let encoded := encodedFrom platform.zlib uncompressedBytes canonical.files.length
    if encoded.compressedBytes.length > limits.maxCompressedBytes then
      fail .limitExceeded "Artifact exceeds the compressed-size limit"
    else return encoded

def validateManifest (compressedBytes : List ℕ) (manifest : ArtifactIntegrity)
    (limits : ArtifactLimits) : Except ArtifactError Unit :=
  if manifest.format ≠ artifactFormat ∨ manifest.formatVersion ≠ 1 then
    fail .formatUnsupported "Artifact format or version is unsupported"
  else if !isSafeInteger manifest.compressedBytes ∨
      manifest.compressedBytes ≠ compressedBytes.length then
    fail .corrupt "Artifact compressed length does not match its manifest"
  else if compressedBytes.length > limits.maxCompressedBytes then
    fail .limitExceeded "Artifact exceeds the compressed-size limit"
  else .ok ()

def decodeProjectArtifact (compressedBytes : List ℕ) (manifest : ArtifactIntegrity)
    (limits : ArtifactLimits) : Except ArtifactError ProjectArtifactBundleV1 := do
  validateLimits limits
  validateManifest compressedBytes manifest limits
  match platform.zlib.gunzip limits.maxUncompressedBytes compressedBytes with
  | .error .bufferTooLarge => fail .limitExceeded "Artifact exceeds the uncompressed-size limit"
  | .error .data => fail .corrupt "Artifact gzip data is corrupt"
  | .ok uncompressedBytes =>
    if !isSafeInteger manifest.uncompressedBytes ∨
        manifest.uncompressedBytes ≠ uncompressedBytes.length then
      fail .corrupt "Artifact uncompressed length does not match its manifest"
    else if Sha256.digest uncompressedBytes ≠ manifest.sha256 then
      fail .corrupt "Artifact sha256 does not match its manifest"
    else match Utf8.decodeFatal uncompressedBytes with
      | none => fail .corrupt "Artifact bytes are not valid UTF-8"
      | some json =>
        match Json.parse platform.numbers json with
        | none => fail .corrupt "Artifact JSON is corrupt"
        | some parsed => do
          enforceFileCount parsed limits projectFileCount
          match canonicalizeBundle platform.one parsed with
          | .error _ => fail .corrupt "Artifact bundle structure is invalid"
          | .ok canonical =>
            if !isSafeInteger manifest.fileCount ∨
                manifest.fileCount ≠ canonical.files.length then
              fail .corrupt "Artifact file count does not match its manifest"
            else return canonical

end Codec

section Laws

/-- The identifiers that bundles hold. -/
structure CanonicalRunId (runId : Text) : Prop where
  objectId : isObjectIdText runId = true
  lowered : runId.map Char.toLower = runId

/-- The files that project bundles hold. -/
structure ArtifactProjectFile.Canonical (file : ArtifactProjectFile) : Prop where
  path : CanonicalPath file.path
  content : NUL ∉ file.content
  runId : ∀ runId, file.generatedByRunId = some runId → CanonicalRunId runId

/-- Neither a key nor a value is blank, and the keys are in order. -/
structure CanonicalMap (entries : List (Text × Text)) : Prop where
  settled : Settled entries
  filled : ∀ entry ∈ entries, (trim entry.1).length ≠ 0 ∧ (trim entry.2).length ≠ 0

structure ArtifactPackageJson.Canonical (packageJson : ArtifactPackageJson) : Prop where
  dependencies : CanonicalMap packageJson.dependencies
  devDependencies : CanonicalMap packageJson.devDependencies
  scripts : CanonicalMap packageJson.scripts

/-- The form of a bundle that is stored: unique paths in order. -/
structure ProjectArtifactBundleV1.Canonical (bundle : ProjectArtifactBundleV1) : Prop where
  files : ∀ file ∈ bundle.files, file.Canonical
  sorted : bundle.files.Pairwise fun a b => Utf16.lt a.path b.path
  packageJson : bundle.packageJson.Canonical

theorem hexValue_toLower {c : Char} (h : (Json.hexValue c).isSome = true) :
    (Json.hexValue c.toLower).isSome = true ∧ c.toLower.toLower = c.toLower := by
  have hsmall : c.toNat < 103 := by
    rw [Json.hexValue] at h
    split_ifs at h with hdigit hlower hupper
    · rw [Char.isDigit, Bool.and_eq_true] at hdigit
      have hle : c.toNat ≤ 57 := by simpa using UInt32.le_iff_toNat_le.mp (of_decide_eq_true hdigit.2)
      omega
    · have hle : c.toNat ≤ 102 := UInt32.le_iff_toNat_le.mp hlower.2
      omega
    · have hle : c.toNat ≤ 70 := UInt32.le_iff_toNat_le.mp hupper.2
      omega
    · cases h
  have hall : ∀ n < 103, (Json.hexValue (Char.ofNat n)).isSome = true →
      (Json.hexValue (Char.ofNat n).toLower).isSome = true ∧
        (Char.ofNat n).toLower.toLower = (Char.ofNat n).toLower := by decide
  have hchar := hall c.toNat hsmall
  rw [Char.ofNat_toNat] at hchar
  exact hchar h

theorem canonicalRunId_lowered {runId : Text} (h : isObjectIdText runId = true) :
    CanonicalRunId (runId.map Char.toLower) := by
  rw [isObjectIdText, Bool.and_eq_true, beq_iff_eq, List.all_eq_true] at h
  constructor
  · rw [isObjectIdText, List.length_map, h.1, List.all_map, BEq.rfl, Bool.true_and,
      List.all_eq_true]
    exact fun c hc => (hexValue_toLower (h.2 c hc)).1
  · rw [List.map_map]
    exact List.map_congr_left fun c hc => (hexValue_toLower (h.2 c hc)).2

theorem languageOf_languageName (language : ProjectFileLanguage) :
    languageOf (text (languageName language)) = some language := by
  cases language <;> decide

variable {N : Type}

theorem canonicalRunId_spec {value : Json N} {runId : Text}
    (h : canonicalRunId value = .ok runId) : CanonicalRunId runId := by
  unfold canonicalRunId at h
  split at h
  · split_ifs at h with hid
    · cases h
      exact canonicalRunId_lowered hid
    · cases h
  · cases h

theorem optionalRunId_spec {value : Json N} {stored : Option Text}
    (h : optionalRunId value = .ok stored) :
    ∀ runId, stored = some runId → CanonicalRunId runId := by
  rintro runId rfl
  unfold optionalRunId at h
  split at h
  · cases h
  · cases hid : canonicalRunId value with
    | error e =>
      rw [hid] at h
      cases h
    | ok found =>
      rw [hid] at h
      cases h
      exact canonicalRunId_spec hid

theorem canonicalFile_spec {value : Json N} {file : ArtifactProjectFile}
    (h : canonicalFile value = .ok file) : file.Canonical := by
  unfold canonicalFile at h
  split at h
  · split at h
    · split_ifs at h with hnul
      · cases h
      · split at h
        · split at h
          · cases h
          · obtain ⟨path, hpath, h⟩ := bind_ok_iff.mp h
            obtain ⟨runId, hid, h⟩ := bind_ok_iff.mp h
            cases h
            unfold pathOf at hpath
            split at hpath
            · exact ⟨(canonicalPath_spec hpath).2, by simpa using hnul, optionalRunId_spec hid⟩
            · cases hpath
        · cases h
    · cases h
  · cases h

theorem optionalRunId_stored {stored : Option Text}
    (h : ∀ runId, stored = some runId → CanonicalRunId runId) :
    optionalRunId ((stored.map (jsonText : Text → Json N)).getD .undefined) = .ok stored := by
  cases stored with
  | none => rfl
  | some runId =>
    have hid := h runId rfl
    change (canonicalRunId (.string runId : Json N)).map some = _
    rw [canonicalRunId, if_pos hid.objectId, hid.lowered]
    rfl

theorem canonicalFile_toJson {file : ArtifactProjectFile} (h : file.Canonical) :
    canonicalFile (file.toJson : Json N) = .ok file := by
  have hpath : pathOf (.string file.path : Json N) = .ok file.path :=
    canonicalPath_of_canonical h.path
  have hcontent : file.content.contains NUL = false := by simpa using h.content
  have hid : property ([(text "path", Json.string file.path), (text "content", .string file.content),
      (text "language", .string (text (languageName file.language)))] ++
      (file.generatedByRunId.map fun runId =>
        (text "generatedByRunId", (jsonText runId : Json N))).toList) "generatedByRunId" =
      (file.generatedByRunId.map jsonText).getD .undefined := by
    cases file.generatedByRunId with
    | none => rfl
    | some runId => rfl
  have hfile : canonicalFile (file.toJson : Json N) =
      if file.content.contains NUL then fail .invalidBundle "Artifact file content must be text"
      else match languageOf (text (languageName file.language)) with
        | none => fail .invalidBundle "Artifact file language is unsupported"
        | some language => do
          let path ← pathOf (.string file.path : Json N)
          let generatedByRunId ← optionalRunId
            ((file.generatedByRunId.map (jsonText : Text → Json N)).getD .undefined)
          return { path, content := file.content, language, generatedByRunId } := by
    rw [← hid]
    rfl
  rw [hfile, hcontent, languageOf_languageName, hpath, optionalRunId_stored h.runId]
  rfl

/-- The entries that are read from properties with texts. -/
theorem mapM_entryText_iff {members : List (Text × Json N)} {entries : List (Text × Text)} :
    members.mapM entryText = some entries ↔
      members = entries.map (fun entry => (entry.1, jsonText entry.2)) ∧
        ∀ entry ∈ entries, (trim entry.1).length ≠ 0 ∧ (trim entry.2).length ≠ 0 := by
  have hentry : ∀ (member : Text × Json N) (entry : Text × Text),
      entryText member = some entry ↔ member = (entry.1, jsonText entry.2) ∧
        (trim entry.1).length ≠ 0 ∧ (trim entry.2).length ≠ 0 := by
    rintro ⟨key, value⟩ ⟨key', value'⟩
    cases value with
    | string s =>
      rw [entryText]
      dsimp only
      split_ifs with hblank
      · refine ⟨nofun, ?_⟩
        rintro ⟨he, hkey, hvalue⟩
        cases he
        exact absurd hblank (not_or.mpr ⟨hkey, hvalue⟩)
      · constructor
        · intro he
          cases he
          exact ⟨rfl, not_or.mp hblank⟩
        · rintro ⟨he, -⟩
          cases he
          rfl
    | _ => simp [entryText, jsonText]
  induction members generalizing entries with
  | nil =>
    rw [List.mapM_nil]
    constructor
    · intro h
      cases h
      exact ⟨rfl, by simp⟩
    · rintro ⟨h, -⟩
      rw [List.map_eq_nil_iff.mp h.symm]
      rfl
  | cons member members ih =>
    rw [List.mapM_cons]
    constructor
    · intro h
      obtain ⟨entry, he, h⟩ := Option.bind_eq_some_iff.mp h
      obtain ⟨rest, hrest, h⟩ := Option.bind_eq_some_iff.mp h
      cases h
      obtain ⟨rfl, hfilled⟩ := (hentry _ _).mp he
      obtain ⟨rfl, hall⟩ := ih.mp hrest
      exact ⟨rfl, List.forall_mem_cons.mpr ⟨hfilled, hall⟩⟩
    · rintro ⟨h, hall⟩
      cases entries with
      | nil => cases h
      | cons entry rest =>
        rw [List.map_cons, List.cons.injEq] at h
        obtain ⟨hfilled, hrest⟩ := List.forall_mem_cons.mp hall
        rw [(hentry member entry).mpr ⟨h.1, hfilled⟩, ih.mpr ⟨h.2, hrest⟩]
        rfl

theorem canonicalMap_spec {value : Json N} {name : String} {entries : List (Text × Text)}
    (h : canonicalMap value name = .ok entries) : CanonicalMap entries := by
  unfold canonicalMap at h
  split at h
  · split at h
    · cases h
    · rename_i members found hfound
      cases h
      refine ⟨fromEntries_settled (sortByText_sorted _ _), fun entry he => ?_⟩
      have hmem := (sortByText_perm (·.1) found).mem_iff.mp (mem_fromEntries he)
      exact (mapM_entryText_iff.mp hfound).2 entry hmem
  · cases h

theorem canonicalMap_jsonMap {entries : List (Text × Text)} {name : String}
    (h : CanonicalMap entries) : canonicalMap (jsonMap entries : Json N) name = .ok entries := by
  have hread := mapM_entryText_iff.mpr
    ⟨(rfl : entries.map (fun entry => (entry.1, (jsonText entry.2 : Json N))) = _), h.filled⟩
  unfold canonicalMap jsonMap
  dsimp only
  rw [hread]
  exact congrArg Except.ok (fromEntries_sortByText h.settled)

theorem canonicalPackageJson_spec {value : Json N} {packageJson : ArtifactPackageJson}
    (h : canonicalPackageJson value = .ok packageJson) : packageJson.Canonical := by
  unfold canonicalPackageJson at h
  split at h
  · obtain ⟨dependencies, hd, h⟩ := bind_ok_iff.mp h
    obtain ⟨devDependencies, hv, h⟩ := bind_ok_iff.mp h
    obtain ⟨scripts, hs, h⟩ := bind_ok_iff.mp h
    cases h
    exact ⟨canonicalMap_spec hd, canonicalMap_spec hv, canonicalMap_spec hs⟩
  · cases h

theorem canonicalPackageJson_toJson {packageJson : ArtifactPackageJson}
    (h : packageJson.Canonical) :
    canonicalPackageJson (packageJson.toJson : Json N) = .ok packageJson := by
  refine bind_ok_iff.mpr ⟨_, canonicalMap_jsonMap h.dependencies, bind_ok_iff.mpr
    ⟨_, canonicalMap_jsonMap h.devDependencies, bind_ok_iff.mpr
      ⟨_, canonicalMap_jsonMap h.scripts, rfl⟩⟩⟩

theorem ProjectArtifactBundleV1.Canonical.nodup {bundle : ProjectArtifactBundleV1}
    (h : bundle.Canonical) : (bundle.files.map (·.path)).Nodup := by
  refine List.pairwise_map.mpr (h.sorted.imp fun hlt he => ?_)
  rw [Utf16.lt, decide_eq_true_eq, he] at hlt
  exact lt_irrefl _ hlt

theorem ProjectArtifactBundleV1.Canonical.sorts {bundle : ProjectArtifactBundleV1}
    (h : bundle.Canonical) : sortByText (·.path) bundle.files = bundle.files := by
  refine sortByText_eq_self _ (h.sorted.imp fun hlt => ?_)
  rw [Utf16.lt, decide_eq_true_eq] at hlt
  exact notAfter_iff.mpr hlt.le

theorem isJson_map {entries : List (Text × Text)} (h : Settled entries) :
    Json.IsJson (jsonMap entries : Json N) := by
  have hsettled : Settled (entries.map fun entry => (entry.1, (jsonText entry.2 : Json N))) :=
    List.pairwise_map.mpr h
  refine ⟨hsettled.inOrder, ?_⟩
  clear h hsettled
  induction entries with
  | nil => trivial
  | cons entry entries ih => exact ⟨trivial, ih⟩

theorem isJson_projectFile (file : ArtifactProjectFile) : Json.IsJson (file.toJson : Json N) := by
  cases file with
  | mk path content language runId =>
    cases runId with
    | none =>
      exact ⟨inOrder_of_sublist [text "path", text "content", text "language"]
        (List.Sublist.refl _) (by decide) (by decide), trivial, trivial, trivial, trivial⟩
    | some runId =>
      exact ⟨inOrder_of_sublist [text "path", text "content", text "language",
        text "generatedByRunId"] (List.Sublist.refl _) (by decide) (by decide), trivial, trivial,
        trivial, trivial, trivial⟩

theorem isJson_projectBundle (one : N) {bundle : ProjectArtifactBundleV1}
    (h : bundle.packageJson.Canonical) : Json.IsJson (bundle.toJson one) :=
  ⟨inOrder_of_sublist [text "version", text "files", text "packageJson"] (List.Sublist.refl _)
    (by decide) (by decide), trivial, Json.allJson_map isJson_projectFile _,
    ⟨inOrder_of_sublist [text "dependencies", text "devDependencies", text "scripts"]
      (List.Sublist.refl _) (by decide) (by decide), isJson_map h.dependencies.settled,
      isJson_map h.devDependencies.settled, isJson_map h.scripts.settled, trivial⟩, trivial⟩

variable [DecidableEq N] {one : N}

/-- What is accepted comes out in canonical form, with a file for each one that was given. -/
theorem canonicalizeBundle_spec {value : Json N} {bundle : ProjectArtifactBundleV1}
    (h : canonicalizeBundle one value = .ok bundle) :
    bundle.Canonical ∧ ∃ elements, filesOf value = some elements ∧
      elements.length = bundle.files.length := by
  unfold canonicalizeBundle at h
  split at h
  · split_ifs at h
    · cases h
    · split at h
      · cases h
      · rename_i members _ _ elements helements
        obtain ⟨files, hfiles, h⟩ := bind_ok_iff.mp h
        obtain ⟨⟨⟩, hdistinct, h⟩ := bind_ok_iff.mp h
        obtain ⟨packageJson, hpackage, h⟩ := bind_ok_iff.mp h
        cases h
        have hall := mapM_ok_iff.mp hfiles
        have hperm := sortByText_perm (·.path) files
        refine ⟨⟨fun file hf => ?_, ?_, canonicalPackageJson_spec hpackage⟩, elements, helements,
          ?_⟩
        · obtain ⟨element, -, he⟩ := mem_of_mapM_ok hfiles (hperm.mem_iff.mp hf)
          exact canonicalFile_spec he
        · exact sortByText_strict _ (refuseDuplicates_ok_iff.mp hdistinct).1
        · rw [hall.length_eq, hperm.length_eq]
  · cases h

theorem canonicalizeBundle_toJson {files : List ArtifactProjectFile}
    {packageJson : ArtifactPackageJson} (hfiles : ∀ file ∈ files, file.Canonical)
    (hnodup : (files.map (·.path)).Nodup) (hpackage : packageJson.Canonical) :
    canonicalizeBundle one (ProjectArtifactBundleV1.toJson one ⟨files, packageJson⟩) =
      .ok ⟨sortByText (·.path) files, packageJson⟩ := by
  have hversion : isNumber (.number one : Json N) one = true := isNumber_iff.mpr rfl
  have hall : (files.map (·.toJson : ArtifactProjectFile → Json N)).mapM canonicalFile =
      .ok files := by
    refine mapM_ok_iff.mpr (List.forall₂_map_left_iff.mpr (List.forall₂_same.mpr fun file hf => ?_))
    exact canonicalFile_toJson (hfiles file hf)
  have hdistinct : refuseDuplicates "Duplicate normalized artifact path: " []
      (files.map (·.path)) = .ok () :=
    refuseDuplicates_ok_iff.mpr ⟨hnodup, fun _ _ => List.not_mem_nil⟩
  have hguard : ¬ (!isNumber (.number one : Json N) one) = true := by
    rw [hversion]
    decide
  refine (if_neg hguard).trans ?_
  exact bind_ok_iff.mpr ⟨files, hall, bind_ok_iff.mpr ⟨(), hdistinct, bind_ok_iff.mpr
    ⟨packageJson, canonicalPackageJson_toJson hpackage, rfl⟩⟩⟩

theorem canonicalizeBundle_canonical {bundle : ProjectArtifactBundleV1} (h : bundle.Canonical) :
    canonicalizeBundle one (bundle.toJson one) = .ok bundle := by
  have hfixed := (@canonicalizeBundle_toJson _ _ one) h.files h.nodup h.packageJson
  rw [h.sorts] at hfixed
  exact hfixed

end Laws

section Decoding

variable {N : Type} [DecidableEq N] {platform : Platform N} {limits : ArtifactLimits}
  {manifest : ArtifactIntegrity} {compressed bytes : List ℕ}

/-- The manifest describes the bytes of a project bundle. -/
abbrev DescribesProject (platform : Platform N) (manifest : ArtifactIntegrity)
    (compressed bytes : List ℕ) (value : Json N) (bundle : ProjectArtifactBundleV1) : Prop :=
  Describes platform (canonicalizeBundle platform.one) (·.files.length) manifest compressed
    bytes value bundle

/-- Reading bytes that match their manifest: all that matters are the limits. -/
theorem decodeProjectArtifact_eq {value : Json N} {bundle : ProjectArtifactBundleV1}
    (h : DescribesProject platform manifest compressed bytes value bundle) (hvalid : limits.Valid) :
    decodeProjectArtifact platform compressed manifest limits =
      if compressed.length > limits.maxCompressedBytes then
        fail .limitExceeded "Artifact exceeds the compressed-size limit"
      else if bytes.length > limits.maxUncompressedBytes then
        fail .limitExceeded "Artifact exceeds the uncompressed-size limit"
      else if bundle.files.length > limits.maxFiles then fail .limitExceeded projectFileCount
      else .ok bundle := by
  have hlimits : validateLimits limits = .ok () := validateLimits_ok_iff.mpr hvalid
  have hmanifest : validateManifest compressed manifest limits =
      if compressed.length > limits.maxCompressedBytes then
        fail .limitExceeded "Artifact exceeds the compressed-size limit"
      else .ok () := by
    have hformat : ¬ (manifest.format ≠ artifactFormat ∨ manifest.formatVersion ≠ 1) := by
      simp [h.format, h.formatVersion]
    have hlength : ¬ ((!isSafeInteger manifest.compressedBytes) = true ∨
        manifest.compressedBytes ≠ compressed.length) :=
      not_or.mpr ⟨by simp [h.safe.1], not_not.mpr h.compressedBytes⟩
    exact (if_neg hformat).trans (if_neg hlength)
  rw [decodeProjectArtifact, hlimits, hmanifest]
  by_cases hcompressed : compressed.length > limits.maxCompressedBytes
  · rw [if_pos hcompressed, if_pos hcompressed]
    rfl
  rw [if_neg hcompressed, if_neg hcompressed, platform.zlib.gunzip_inflate _ _ _ h.inflate]
  by_cases huncompressed : bytes.length > limits.maxUncompressedBytes
  · rw [if_pos huncompressed, if_neg (Nat.not_le.mpr huncompressed)]
    rfl
  have hlength : ¬ ((!isSafeInteger manifest.uncompressedBytes) = true ∨
      manifest.uncompressedBytes ≠ bytes.length) :=
    not_or.mpr ⟨by simp [h.safe.2.1], not_not.mpr h.uncompressedBytes⟩
  rw [if_neg huncompressed, if_pos (Nat.not_lt.mp huncompressed)]
  refine (if_neg hlength).trans ((if_neg (not_not.mpr h.sha256)).trans ?_)
  obtain ⟨json, hjson, hparse⟩ := Option.bind_eq_some_iff.mp h.parse
  rw [hjson]
  dsimp only
  rw [hparse]
  obtain ⟨-, elements, helements, hcount⟩ := canonicalizeBundle_spec h.canonicalize
  by_cases hfiles : bundle.files.length > limits.maxFiles
  · have hrefused : enforceFileCount value limits projectFileCount =
        fail .limitExceeded projectFileCount := by
      rw [enforceFileCount, helements]
      exact if_pos (by simpa [hcount] using hfiles)
    rw [if_pos hfiles]
    simp only [hrefused]
    rfl
  · have haccepted : enforceFileCount value limits projectFileCount = .ok () := by
      refine enforceFileCount_ok_iff.mpr fun files he => ?_
      cases helements.symm.trans he
      omega
    have hnumber : ¬ ((!isSafeInteger manifest.fileCount) = true ∨
        manifest.fileCount ≠ bundle.files.length) :=
      not_or.mpr ⟨by simp [h.safe.2.2], not_not.mpr h.fileCount⟩
    rw [if_neg hfiles]
    simp only [haccepted, h.canonicalize]
    exact if_neg hnumber

/-- What is accepted has been inflated, and is in canonical form. -/
theorem decodeProjectArtifact_spec {bundle : ProjectArtifactBundleV1}
    (h : decodeProjectArtifact platform compressed manifest limits = .ok bundle) :
    bundle.Canonical ∧ ∃ bytes value, platform.zlib.inflate compressed = some bytes ∧
      parseBytes platform.numbers bytes = some value ∧
      canonicalizeBundle platform.one value = .ok bundle := by
  obtain ⟨⟨⟩, -, h⟩ := bind_ok_iff.mp h
  obtain ⟨⟨⟩, -, h⟩ := bind_ok_iff.mp h
  split at h
  · cases h
  · cases h
  · rename_i bytes hgunzip
    split_ifs at h
    · cases h
    · cases h
    · split at h
      · cases h
      · rename_i json hjson
        split at h
        · cases h
        · rename_i value hparse
          obtain ⟨⟨⟩, -, h⟩ := bind_ok_iff.mp h
          split at h
          · cases h
          · rename_i canonical hcanonical
            split_ifs at h
            · cases h
            · cases h
              exact ⟨(canonicalizeBundle_spec hcanonical).1, bytes, value,
                platform.zlib.inflate_gunzip _ _ _ hgunzip,
                Option.bind_eq_some_iff.mpr ⟨json, hjson, hparse⟩, hcanonical⟩

/-- What is encoded, and that its manifest describes it. -/
theorem encodeProjectArtifact_spec {bundle : ProjectArtifactBundleV1} {encoded : EncodedArtifact}
    (h : encodeProjectArtifact platform bundle limits = .ok encoded) :
    ∃ canonical, canonicalizeBundle platform.one (bundle.toJson platform.one) = .ok canonical ∧
      encoded.uncompressedBytes = jsonBytes platform.numbers (canonical.toJson platform.one) ∧
      encoded.sha256 = encoded.manifest.sha256 ∧
      DescribesProject platform encoded.manifest encoded.compressedBytes encoded.uncompressedBytes
        (canonical.toJson platform.one) canonical ∧
      decodeProjectArtifact platform encoded.compressedBytes encoded.manifest limits =
        .ok canonical := by
  obtain ⟨⟨⟩, hlimits, h⟩ := bind_ok_iff.mp h
  obtain ⟨⟨⟩, hcount, h⟩ := bind_ok_iff.mp h
  obtain ⟨canonical, hcanonical, h⟩ := bind_ok_iff.mp h
  dsimp only at h
  split_ifs at h with huncompressed hcompressed
  · cases h
  · cases h
  · cases h
    have hvalid := validateLimits_ok_iff.mp hlimits
    obtain ⟨hform, elements, helements, hlength⟩ := canonicalizeBundle_spec hcanonical
    have hfiles : canonical.files.length ≤ limits.maxFiles :=
      hlength ▸ enforceFileCount_ok_iff.mp hcount elements helements
    have hdescribes : DescribesProject platform _ _ _ _ canonical := describes_encoded rfl hvalid
      rfl (isJson_projectBundle platform.one hform.packageJson) (canonicalizeBundle_canonical hform)
      (Nat.not_lt.mp huncompressed) (Nat.not_lt.mp hcompressed) hfiles
    refine ⟨canonical, hcanonical, rfl, rfl, hdescribes, ?_⟩
    refine (decodeProjectArtifact_eq hdescribes hvalid).trans ?_
    exact (if_neg hcompressed).trans ((if_neg huncompressed).trans
      (if_neg (Nat.not_lt.mpr hfiles)))

end Decoding

end AppBuilder.Artifacts
