import AppBuilder.Artifacts.Codec

/-! `artifacts/previewBundle.ts`: bundles of preview files, whose contents are base64. -/
namespace AppBuilder.Artifacts
open Agent Encoding

structure PreviewArtifactFile where
  path : Text
  contentBase64 : Text
  contentType : Text
  deriving DecidableEq, Repr

/-- `version` is `1`, and `entryPath` is `index.html`. -/
structure PreviewArtifactBundleV1 where
  files : List PreviewArtifactFile
  deriving DecidableEq, Repr

def contentTypes : List (Text × Text) :=
  [(text ".avif", text "image/avif"),
    (text ".css", text "text/css; charset=utf-8"),
    (text ".gif", text "image/gif"),
    (text ".html", text "text/html; charset=utf-8"),
    (text ".ico", text "image/x-icon"),
    (text ".jpeg", text "image/jpeg"),
    (text ".jpg", text "image/jpeg"),
    (text ".js", text "text/javascript; charset=utf-8"),
    (text ".json", text "application/json; charset=utf-8"),
    (text ".map", text "application/json; charset=utf-8"),
    (text ".mjs", text "text/javascript; charset=utf-8"),
    (text ".mp3", text "audio/mpeg"),
    (text ".mp4", text "video/mp4"),
    (text ".ogg", text "audio/ogg"),
    (text ".pdf", text "application/pdf"),
    (text ".png", text "image/png"),
    (text ".svg", text "image/svg+xml"),
    (text ".ttf", text "font/ttf"),
    (text ".txt", text "text/plain; charset=utf-8"),
    (text ".wasm", text "application/wasm"),
    (text ".webm", text "video/webm"),
    (text ".webmanifest", text "application/manifest+json"),
    (text ".webp", text "image/webp"),
    (text ".woff", text "font/woff"),
    (text ".woff2", text "font/woff2"),
    (text ".xml", text "application/xml")]

def refusedPreviewPath (normalized : Text) : Bool :=
  startsWith normalized (text "/") || hasDriveRoot normalized || normalized.contains NUL ||
    (Path.segments normalized).any refusedSegment

/-- The path of a preview file, once it is known to be a string. -/
def canonicalPreviewPath (rawPath : Text) : Except ArtifactError Text :=
  if rawPath.length = 0 ∨ rawPath ≠ trim rawPath then
    fail .invalidPath "Preview file path must be a non-empty string"
  else if refusedPreviewPath (slashes rawPath) then
    fail .invalidPath ("Unsafe preview file path: " ++ String.ofList rawPath)
  else .ok (slashes rawPath)

/-- `path.slice(path.lastIndexOf('.')).toLowerCase()`; only ASCII letters matter to the table. -/
def lowerExtension (path : Text) : Text :=
  if path.contains '.' then '.' :: (path.rtakeWhile (· ≠ '.')).map Char.toLower else []

def previewContentTypeForPath (input : Text) : Except ArtifactError Text := do
  let path ← canonicalPreviewPath input
  match contentTypes.lookup (lowerExtension path) with
  | some contentType => .ok contentType
  | none => fail .invalidPath ("Unsupported preview file type: " ++ String.ofList path)

section Canonical

variable {N : Type}

/-- A value that must be a path. -/
def previewPathOf (input : Json N) : Except ArtifactError Text :=
  match input with
  | .string rawPath => canonicalPreviewPath rawPath
  | _ => fail .invalidPath "Preview file path must be a non-empty string"

def canonicalBase64 (input : Json N) : Except ArtifactError Text :=
  match input with
  | .string s =>
    if Base64.encodeStandard (Base64.decode s) ≠ s then
      fail .invalidBundle "Preview file content is not canonical base64"
    else .ok s
  | _ => fail .invalidBundle "Preview file content must be base64 text"

def canonicalPreviewFile (input : Json N) : Except ArtifactError PreviewArtifactFile :=
  match input with
  | .object members => do
    let path ← previewPathOf (property members "path")
    let contentType ← previewContentTypeForPath path
    if !isText (property members "contentType") contentType then
      fail .invalidBundle ("Preview content type does not match path: " ++ String.ofList path)
    else
      let contentBase64 ← canonicalBase64 (property members "contentBase64")
      return { path, contentBase64, contentType }
  | _ => fail .invalidBundle "Preview files must be objects"

def entryPath : Text := text "index.html"

def invalidPreview {α : Type} : Except ArtifactError α :=
  fail .invalidBundle "Preview bundle version, entry, or files are invalid"

def canonicalizePreviewBundle [DecidableEq N] (one : N) (input : Json N) :
    Except ArtifactError PreviewArtifactBundleV1 :=
  match input with
  | .object members =>
    if !isNumber (property members "version") one ∨
        !isText (property members "entryPath") entryPath then invalidPreview
    else match elements? (property members "files") with
      | none => invalidPreview
      | some elements => do
        let files ← elements.mapM canonicalPreviewFile
        refuseDuplicates "Duplicate preview path: " [] (files.map (·.path))
        if !(files.map (·.path)).contains entryPath then
          fail .invalidBundle "Preview bundle is missing index.html"
        else return { files := sortByText (·.path) files }
  | _ => fail .invalidBundle "Preview bundle must be an object"

def PreviewArtifactFile.toJson (file : PreviewArtifactFile) : Json N :=
  .object [(text "path", .string file.path), (text "contentBase64", .string file.contentBase64),
    (text "contentType", .string file.contentType)]

def PreviewArtifactBundleV1.toJson (one : N) (bundle : PreviewArtifactBundleV1) : Json N :=
  .object [(text "version", .number one), (text "entryPath", .string entryPath),
    (text "files", .array (bundle.files.map (·.toJson)))]

end Canonical

/-- A file that a build has produced. -/
structure PreviewFile where
  path : Text
  content : List ℕ
  deriving DecidableEq, Repr

def createPreviewArtifactBundle (files : List PreviewFile) :
    Except ArtifactError PreviewArtifactBundleV1 := do
  let files ← files.mapM fun file => do
    let path ← canonicalPreviewPath file.path
    let contentType ← previewContentTypeForPath path
    return { path, contentBase64 := Base64.encodeStandard file.content, contentType }
  return { files }

section Codec

variable {N : Type} [DecidableEq N] (platform : Platform N)

def previewFileCount : String := "Preview artifact exceeds the file-count limit"

/-- The bytes of a bundle, and what its manifest says of them. -/
def encodePreviewArtifact (bundle : PreviewArtifactBundleV1) (limits : ArtifactLimits) :
    Except ArtifactError EncodedArtifact := do
  validateLimits limits
  enforceFileCount (bundle.toJson platform.one) limits previewFileCount
  let canonical ← canonicalizePreviewBundle platform.one (bundle.toJson platform.one)
  let uncompressedBytes := jsonBytes platform.numbers (canonical.toJson platform.one)
  if uncompressedBytes.length > limits.maxUncompressedBytes then
    fail .limitExceeded "Preview artifact exceeds the uncompressed-size limit"
  else
    let encoded := encodedFrom platform.zlib uncompressedBytes canonical.files.length
    if encoded.compressedBytes.length > limits.maxCompressedBytes then
      fail .limitExceeded "Preview artifact exceeds the compressed-size limit"
    else return encoded

def decodePreviewArtifact (compressedBytes : List ℕ) (manifest : ArtifactIntegrity)
    (limits : ArtifactLimits) : Except ArtifactError PreviewArtifactBundleV1 := do
  validateLimits limits
  if manifest.format ≠ artifactFormat ∨ manifest.formatVersion ≠ 1 then
    fail .formatUnsupported "Preview artifact format is unsupported"
  else if !isSafeInteger manifest.compressedBytes ∨
      manifest.compressedBytes ≠ compressedBytes.length ∨
      compressedBytes.length > limits.maxCompressedBytes then
    fail .corrupt "Preview artifact compressed length is invalid"
  else match platform.zlib.gunzip limits.maxUncompressedBytes compressedBytes with
    | .error _ => fail .corrupt "Preview artifact gzip data is corrupt"
    | .ok uncompressedBytes =>
      if manifest.uncompressedBytes ≠ uncompressedBytes.length ∨
          Sha256.digest uncompressedBytes ≠ manifest.sha256 then
        fail .corrupt "Preview artifact integrity check failed"
      else match parseBytes platform.numbers uncompressedBytes with
        | none => fail .corrupt "Preview artifact JSON is corrupt"
        | some parsed => do
          enforceFileCount parsed limits previewFileCount
          match canonicalizePreviewBundle platform.one parsed with
          | .error _ => fail .corrupt "Preview artifact bundle structure is invalid"
          | .ok canonical =>
            if manifest.fileCount ≠ canonical.files.length then
              fail .corrupt "Preview artifact file count is invalid"
            else return canonical

end Codec

section Paths

variable {path rawPath : Text}

/-- The paths that preview bundles hold. -/
structure PreviewPath (path : Text) : Prop where
  noBackslash : '\\' ∉ path
  trimmed : trim path = path
  plain : Path.IsPlain path
  noDriveRoot : hasDriveRoot path = false
  noNul : NUL ∉ path

theorem canonicalPreviewPath_spec (h : canonicalPreviewPath rawPath = .ok path) :
    path = slashes rawPath ∧ PreviewPath path := by
  unfold canonicalPreviewPath at h
  split_ifs at h with hblank hrefused
  · cases h
  · cases h
  · cases h
    push Not at hblank
    simp only [refusedPreviewPath, Bool.not_eq_true, Bool.or_eq_false_iff] at hrefused
    obtain ⟨⟨⟨-, hdrive⟩, hnul⟩, hplain⟩ := hrefused
    refine ⟨rfl, not_mem_slashes, ?_, refusedSegment_eq_false.mp hplain, hdrive, ?_⟩
    · rw [trim_slashes, ← hblank.2]
    · simpa using hnul

theorem canonicalPreviewPath_of_preview (h : PreviewPath path) :
    canonicalPreviewPath path = .ok path := by
  have hblank : ¬ (path.length = 0 ∨ path ≠ trim path) := by
    rw [h.trimmed]
    simp [Path.ne_nil_of_plain h.plain]
  have hrefused : refusedPreviewPath path = false := by
    have hnul : path.contains NUL = false := by simpa using h.noNul
    rw [refusedPreviewPath, startsWith_slash, Path.isAbsolute_of_plain h.plain, h.noDriveRoot, hnul,
      refusedSegment_eq_false.mpr h.plain]
    rfl
  rw [canonicalPreviewPath, slashes_eq_self h.noBackslash, if_neg hblank, hrefused]
  rfl

/-- A canonical path stays as it is. -/
theorem canonicalPreviewPath_idem (h : canonicalPreviewPath rawPath = .ok path) :
    canonicalPreviewPath path = .ok path :=
  canonicalPreviewPath_of_preview (canonicalPreviewPath_spec h).2

end Paths

section Laws

variable {N : Type} {one : N}

/-- The files that preview bundles hold. -/
structure PreviewArtifactFile.Canonical (file : PreviewArtifactFile) : Prop where
  path : canonicalPreviewPath file.path = .ok file.path
  contentType : previewContentTypeForPath file.path = .ok file.contentType
  content : Base64.encodeStandard (Base64.decode file.contentBase64) = file.contentBase64

/-- The form of a bundle that is stored: unique paths in order, and an entry. -/
structure PreviewArtifactBundleV1.Canonical (bundle : PreviewArtifactBundleV1) : Prop where
  files : ∀ file ∈ bundle.files, file.Canonical
  sorted : bundle.files.Pairwise fun a b => Utf16.lt a.path b.path
  entry : entryPath ∈ bundle.files.map (·.path)

theorem canonicalBase64_spec {value : Json N} {s : Text} (h : canonicalBase64 value = .ok s) :
    value = .string s ∧ Base64.encodeStandard (Base64.decode s) = s := by
  unfold canonicalBase64 at h
  split at h
  · split_ifs at h with hne
    · cases h
    · cases h
      exact ⟨rfl, not_not.mp hne⟩
  · cases h

theorem canonicalPreviewFile_spec {value : Json N} {file : PreviewArtifactFile}
    (h : canonicalPreviewFile value = .ok file) : file.Canonical := by
  unfold canonicalPreviewFile at h
  split at h
  · obtain ⟨path, hpath, h⟩ := bind_ok_iff.mp h
    obtain ⟨contentType, htype, h⟩ := bind_ok_iff.mp h
    split_ifs at h
    · cases h
    · obtain ⟨content, hcontent, h⟩ := bind_ok_iff.mp h
      cases h
      unfold previewPathOf at hpath
      split at hpath
      · exact ⟨canonicalPreviewPath_idem hpath, htype, (canonicalBase64_spec hcontent).2⟩
      · cases hpath
  · cases h

theorem canonicalPreviewFile_toJson {file : PreviewArtifactFile} (h : file.Canonical) :
    canonicalPreviewFile (file.toJson : Json N) = .ok file := by
  have hpath : previewPathOf (.string file.path : Json N) = .ok file.path := h.path
  have hcontent : canonicalBase64 (.string file.contentBase64 : Json N) = .ok file.contentBase64 :=
    if_neg (not_not.mpr h.content)
  have htype : isText (.string file.contentType : Json N) file.contentType = true :=
    isText_iff.mpr rfl
  have hfile : canonicalPreviewFile (file.toJson : Json N) = (do
      let path ← previewPathOf (.string file.path : Json N)
      let contentType ← previewContentTypeForPath path
      if !isText (.string file.contentType : Json N) contentType then
        fail .invalidBundle ("Preview content type does not match path: " ++ String.ofList path)
      else
        let contentBase64 ← canonicalBase64 (.string file.contentBase64 : Json N)
        return { path, contentBase64, contentType }) := rfl
  rw [hfile, hpath]
  refine bind_ok_iff.mpr ⟨_, rfl, bind_ok_iff.mpr ⟨_, h.contentType, ?_⟩⟩
  rw [htype, hcontent]
  rfl

theorem PreviewArtifactBundleV1.Canonical.nodup {bundle : PreviewArtifactBundleV1}
    (h : bundle.Canonical) : (bundle.files.map (·.path)).Nodup := by
  refine List.pairwise_map.mpr (h.sorted.imp fun hlt he => ?_)
  rw [Utf16.lt, decide_eq_true_eq, he] at hlt
  exact lt_irrefl _ hlt

theorem PreviewArtifactBundleV1.Canonical.sorts {bundle : PreviewArtifactBundleV1}
    (h : bundle.Canonical) : sortByText (·.path) bundle.files = bundle.files := by
  refine sortByText_eq_self _ (h.sorted.imp fun hlt => ?_)
  rw [Utf16.lt, decide_eq_true_eq] at hlt
  exact notAfter_iff.mpr hlt.le

theorem isJson_file (file : PreviewArtifactFile) : Json.IsJson (file.toJson : Json N) :=
  ⟨inOrder_of_sublist [text "path", text "contentBase64", text "contentType"]
    (List.Sublist.refl _) (by decide) (by decide), trivial, trivial, trivial, trivial⟩

theorem isJson_bundle (one : N) (bundle : PreviewArtifactBundleV1) :
    Json.IsJson (bundle.toJson one) :=
  ⟨inOrder_of_sublist [text "version", text "entryPath", text "files"] (List.Sublist.refl _)
    (by decide) (by decide), trivial, trivial, Json.allJson_map isJson_file _, trivial⟩

variable [DecidableEq N]

/-- What is accepted comes out in canonical form, with a file for each one that was given. -/
theorem canonicalizePreviewBundle_spec {value : Json N} {bundle : PreviewArtifactBundleV1}
    (h : canonicalizePreviewBundle one value = .ok bundle) :
    bundle.Canonical ∧ ∃ elements, filesOf value = some elements ∧
      elements.length = bundle.files.length := by
  unfold canonicalizePreviewBundle at h
  split at h
  · split_ifs at h
    · cases h
    · split at h
      · cases h
      · rename_i members _ elements helements
        obtain ⟨files, hfiles, h⟩ := bind_ok_iff.mp h
        obtain ⟨⟨⟩, hdistinct, h⟩ := bind_ok_iff.mp h
        split_ifs at h with hentry
        · cases h
        · cases h
          have hall := mapM_ok_iff.mp hfiles
          have hperm := sortByText_perm (·.path) files
          refine ⟨⟨fun file hf => ?_, ?_, ?_⟩, elements, helements, ?_⟩
          · obtain ⟨element, -, he⟩ := mem_of_mapM_ok hfiles (hperm.mem_iff.mp hf)
            exact canonicalPreviewFile_spec he
          · exact sortByText_strict _ (refuseDuplicates_ok_iff.mp hdistinct).1
          · have hmem : entryPath ∈ files.map (·.path) := by simpa using hentry
            exact (hperm.map _).mem_iff.mpr hmem
          · rw [hall.length_eq, hperm.length_eq]
  · cases h

theorem canonicalizePreviewBundle_toJson {files : List PreviewArtifactFile}
    (hfiles : ∀ file ∈ files, file.Canonical) (hnodup : (files.map (·.path)).Nodup)
    (hentry : entryPath ∈ files.map (·.path)) :
    canonicalizePreviewBundle one (PreviewArtifactBundleV1.toJson one ⟨files⟩) =
      .ok ⟨sortByText (·.path) files⟩ := by
  have hversion : isNumber (.number one : Json N) one = true := isNumber_iff.mpr rfl
  have hentryPath : isText (.string entryPath : Json N) entryPath = true := isText_iff.mpr rfl
  have hall : (files.map (·.toJson : PreviewArtifactFile → Json N)).mapM canonicalPreviewFile =
      .ok files := by
    refine mapM_ok_iff.mpr (List.forall₂_map_left_iff.mpr (List.forall₂_same.mpr fun file hf => ?_))
    exact canonicalPreviewFile_toJson (hfiles file hf)
  have hdistinct : refuseDuplicates "Duplicate preview path: " [] (files.map (·.path)) = .ok () :=
    refuseDuplicates_ok_iff.mpr ⟨hnodup, fun _ _ => List.not_mem_nil⟩
  have hhas : (files.map (·.path)).contains entryPath = true := by simpa using hentry
  have hguard : ¬ ((!isNumber (.number one : Json N) one) = true ∨
      (!isText (.string entryPath : Json N) entryPath) = true) := by
    rw [hversion, hentryPath]
    decide
  refine (if_neg hguard).trans ?_
  refine bind_ok_iff.mpr ⟨files, hall, bind_ok_iff.mpr ⟨(), hdistinct, ?_⟩⟩
  rw [hhas]
  rfl

theorem canonicalizePreviewBundle_canonical {bundle : PreviewArtifactBundleV1}
    (h : bundle.Canonical) : canonicalizePreviewBundle one (bundle.toJson one) = .ok bundle := by
  have hfixed := (@canonicalizePreviewBundle_toJson _ one) h.files h.nodup h.entry
  rw [h.sorts] at hfixed
  exact hfixed

end Laws

section Decoding

variable {N : Type} [DecidableEq N] {platform : Platform N} {limits : ArtifactLimits}
  {manifest : ArtifactIntegrity} {compressed bytes : List ℕ}

/-- The manifest describes the bytes of a preview bundle. -/
abbrev DescribesPreview (platform : Platform N) (manifest : ArtifactIntegrity)
    (compressed bytes : List ℕ) (value : Json N) (bundle : PreviewArtifactBundleV1) : Prop :=
  Describes platform (canonicalizePreviewBundle platform.one) (·.files.length) manifest compressed
    bytes value bundle

/-- Reading bytes that match their manifest: all that matters are the limits. -/
theorem decodePreviewArtifact_eq {value : Json N} {bundle : PreviewArtifactBundleV1}
    (h : DescribesPreview platform manifest compressed bytes value bundle) (hvalid : limits.Valid) :
    decodePreviewArtifact platform compressed manifest limits =
      if compressed.length > limits.maxCompressedBytes then
        fail .corrupt "Preview artifact compressed length is invalid"
      else if bytes.length > limits.maxUncompressedBytes then
        fail .corrupt "Preview artifact gzip data is corrupt"
      else if bundle.files.length > limits.maxFiles then fail .limitExceeded previewFileCount
      else .ok bundle := by
  have hlimits : validateLimits limits = .ok () := validateLimits_ok_iff.mpr hvalid
  have hformat : ¬ (manifest.format ≠ artifactFormat ∨ manifest.formatVersion ≠ 1) := by
    simp [h.format, h.formatVersion]
  rw [decodePreviewArtifact, hlimits]
  refine (if_neg hformat).trans ?_
  by_cases hcompressed : compressed.length > limits.maxCompressedBytes
  · rw [if_pos hcompressed]
    exact if_pos (.inr (.inr hcompressed))
  have hlength : ¬ ((!isSafeInteger manifest.compressedBytes) = true ∨
      manifest.compressedBytes ≠ compressed.length ∨
      compressed.length > limits.maxCompressedBytes) := by
    have hsafe := h.safe.1
    rw [h.compressedBytes] at hsafe ⊢
    simp [hsafe, hcompressed]
  rw [if_neg hcompressed]
  refine (if_neg hlength).trans ?_
  rw [platform.zlib.gunzip_inflate _ _ _ h.inflate]
  by_cases huncompressed : bytes.length > limits.maxUncompressedBytes
  · rw [if_pos huncompressed, if_neg (Nat.not_le.mpr huncompressed)]
  have hintegrity : ¬ (manifest.uncompressedBytes ≠ bytes.length ∨
      Sha256.digest bytes ≠ manifest.sha256) := by
    simp [h.uncompressedBytes, h.sha256]
  rw [if_neg huncompressed, if_pos (Nat.not_lt.mp huncompressed)]
  refine (if_neg hintegrity).trans ?_
  rw [h.parse]
  obtain ⟨-, elements, helements, hcount⟩ := canonicalizePreviewBundle_spec h.canonicalize
  by_cases hfiles : bundle.files.length > limits.maxFiles
  · have hrefused : enforceFileCount value limits previewFileCount =
        fail .limitExceeded previewFileCount := by
      rw [enforceFileCount, helements]
      exact if_pos (by simpa [hcount] using hfiles)
    rw [if_pos hfiles]
    simp only [hrefused]
    rfl
  · have haccepted : enforceFileCount value limits previewFileCount = .ok () := by
      refine enforceFileCount_ok_iff.mpr fun files he => ?_
      cases helements.symm.trans he
      omega
    rw [if_neg hfiles]
    simp only [haccepted, h.canonicalize]
    exact if_neg (not_not.mpr h.fileCount)

/-- What is accepted has been inflated, and is in canonical form. -/
theorem decodePreviewArtifact_spec {bundle : PreviewArtifactBundleV1}
    (h : decodePreviewArtifact platform compressed manifest limits = .ok bundle) :
    bundle.Canonical ∧ ∃ bytes value, platform.zlib.inflate compressed = some bytes ∧
      parseBytes platform.numbers bytes = some value ∧
      canonicalizePreviewBundle platform.one value = .ok bundle := by
  obtain ⟨⟨⟩, -, h⟩ := bind_ok_iff.mp h
  split_ifs at h
  · cases h
  · cases h
  · split at h
    · cases h
    · rename_i bytes hgunzip
      split_ifs at h
      · cases h
      · split at h
        · cases h
        · rename_i value hparse
          obtain ⟨⟨⟩, -, h⟩ := bind_ok_iff.mp h
          split at h
          · cases h
          · rename_i canonical hcanonical
            split_ifs at h
            · cases h
            · cases h
              exact ⟨(canonicalizePreviewBundle_spec hcanonical).1, bytes, value,
                platform.zlib.inflate_gunzip _ _ _ hgunzip, hparse, hcanonical⟩

/-- What `encodePreviewArtifact` makes of a bundle whose canonical form is within the limits. -/
theorem encodePreviewArtifact_eq {bundle canonical : PreviewArtifactBundleV1}
    (hvalid : limits.Valid) (hfiles : bundle.files.length ≤ limits.maxFiles)
    (hcanonical :
      canonicalizePreviewBundle platform.one (bundle.toJson platform.one) = .ok canonical)
    (huncompressed : (jsonBytes platform.numbers (canonical.toJson platform.one)).length ≤
      limits.maxUncompressedBytes)
    (hcompressed : (platform.zlib.gzip (jsonBytes platform.numbers
      (canonical.toJson platform.one))).length ≤ limits.maxCompressedBytes) :
    encodePreviewArtifact platform bundle limits = .ok (encodedFrom platform.zlib
      (jsonBytes platform.numbers (canonical.toJson platform.one)) canonical.files.length) := by
  have hlimits : validateLimits limits = .ok () := validateLimits_ok_iff.mpr hvalid
  have hcount : enforceFileCount (bundle.toJson platform.one) limits previewFileCount = .ok () := by
    refine enforceFileCount_ok_iff.mpr fun files he => ?_
    cases he
    rwa [List.length_map]
  rw [encodePreviewArtifact, hlimits]
  refine bind_ok_iff.mpr ⟨(), rfl, bind_ok_iff.mpr ⟨(), hcount, bind_ok_iff.mpr
    ⟨canonical, hcanonical, ?_⟩⟩⟩
  exact (if_neg (Nat.not_lt.mpr huncompressed)).trans (if_neg (Nat.not_lt.mpr hcompressed))

/-- What is encoded, and that its manifest describes it. -/
theorem encodePreviewArtifact_spec {bundle : PreviewArtifactBundleV1} {encoded : EncodedArtifact}
    (h : encodePreviewArtifact platform bundle limits = .ok encoded) :
    ∃ canonical, canonicalizePreviewBundle platform.one (bundle.toJson platform.one) =
        .ok canonical ∧
      encoded.uncompressedBytes = jsonBytes platform.numbers (canonical.toJson platform.one) ∧
      encoded.sha256 = encoded.manifest.sha256 ∧
      DescribesPreview platform encoded.manifest encoded.compressedBytes encoded.uncompressedBytes
        (canonical.toJson platform.one) canonical ∧
      decodePreviewArtifact platform encoded.compressedBytes encoded.manifest limits =
        .ok canonical := by
  obtain ⟨⟨⟩, hlimits, h⟩ := bind_ok_iff.mp h
  obtain ⟨⟨⟩, hcount, h⟩ := bind_ok_iff.mp h
  obtain ⟨canonical, hcanonical, h⟩ := bind_ok_iff.mp h
  dsimp only at h
  split_ifs at h with huncompressed hcompressed
  · cases h
  · cases h
  · cases h
    have hvalid := validateLimits_ok_iff.mp hlimits
    obtain ⟨hform, elements, helements, hlength⟩ := canonicalizePreviewBundle_spec hcanonical
    have hfiles : canonical.files.length ≤ limits.maxFiles :=
      hlength ▸ enforceFileCount_ok_iff.mp hcount elements helements
    have hdescribes : DescribesPreview platform _ _ _ _ canonical := describes_encoded rfl hvalid
      rfl (isJson_bundle platform.one canonical) (canonicalizePreviewBundle_canonical hform)
      (Nat.not_lt.mp huncompressed) (Nat.not_lt.mp hcompressed) hfiles
    refine ⟨canonical, hcanonical, rfl, rfl, hdescribes, ?_⟩
    refine (decodePreviewArtifact_eq hdescribes hvalid).trans ?_
    exact (if_neg hcompressed).trans ((if_neg huncompressed).trans
      (if_neg (Nat.not_lt.mpr hfiles)))

end Decoding

end AppBuilder.Artifacts
