import AppBuilder.Artifacts.PreviewBundle

/-! What is read of a preview bundle that was written, and what is read at all. -/
namespace AppBuilder.Artifacts
open Agent Encoding

section Created

variable {file : PreviewFile} {files : List PreviewFile} {path contentType : Text}

/-- How a bundle holds the file. -/
def PreviewFile.stored (file : PreviewFile) : PreviewArtifactFile where
  path := slashes file.path
  contentBase64 := Base64.encodeStandard file.content
  contentType := (contentTypes.lookup (lowerExtension (slashes file.path))).getD []

/-- A file with a path that is accepted, a type that is known, and bytes. -/
structure PreviewFile.Supported (file : PreviewFile) : Prop where
  contentType : ∃ contentType, previewContentTypeForPath file.path = .ok contentType
  bytes : ∀ byte ∈ file.content, byte < 256

theorem previewContentTypeForPath_ok_iff : previewContentTypeForPath path = .ok contentType ↔
    canonicalPreviewPath path = .ok (slashes path) ∧
      contentTypes.lookup (lowerExtension (slashes path)) = some contentType := by
  rw [previewContentTypeForPath, bind_ok_iff]
  constructor
  · rintro ⟨canonical, hcanonical, h⟩
    obtain ⟨rfl, -⟩ := canonicalPreviewPath_spec hcanonical
    cases hlookup : contentTypes.lookup (lowerExtension (slashes path)) with
    | none =>
      rw [hlookup] at h
      cases h
    | some found =>
      rw [hlookup] at h
      cases h
      exact ⟨hcanonical, rfl⟩
  · rintro ⟨hcanonical, hlookup⟩
    refine ⟨_, hcanonical, ?_⟩
    rw [hlookup]

theorem PreviewFile.Supported.stored (h : file.Supported) :
    canonicalPreviewPath file.path = .ok file.stored.path ∧
      previewContentTypeForPath file.path = .ok file.stored.contentType ∧
      previewContentTypeForPath file.stored.path = .ok file.stored.contentType ∧
      file.stored.Canonical := by
  obtain ⟨contentType, hok⟩ := h.contentType
  obtain ⟨hpath, hlookup⟩ := previewContentTypeForPath_ok_iff.mp hok
  have htype : file.stored.contentType = contentType := by
    rw [PreviewFile.stored, hlookup, Option.getD_some]
  have hidem := canonicalPreviewPath_idem hpath
  have hslashes : slashes (slashes file.path) = slashes file.path :=
    slashes_eq_self not_mem_slashes
  have hstored : previewContentTypeForPath file.stored.path = .ok contentType :=
    previewContentTypeForPath_ok_iff.mpr ⟨by rw [PreviewFile.stored, hslashes]; exact hidem,
      by rw [PreviewFile.stored, hslashes]; exact hlookup⟩
  refine ⟨hpath, htype ▸ hok, htype ▸ hstored, hidem, htype ▸ hstored, ?_⟩
  exact congrArg Base64.encodeStandard (Base64.decode_encodeStandard h.bytes)

theorem createPreviewArtifactBundle_eq (h : ∀ file ∈ files, file.Supported) :
    createPreviewArtifactBundle files = .ok ⟨files.map (·.stored)⟩ := by
  refine bind_ok_iff.mpr ⟨files.map (·.stored), mapM_ok_iff.mpr ?_, rfl⟩
  refine List.forall₂_map_right_iff.mpr (List.forall₂_same.mpr fun file hf => ?_)
  obtain ⟨hpath, -, htype, -⟩ := (h file hf).stored
  exact bind_ok_iff.mpr ⟨_, hpath, bind_ok_iff.mpr ⟨_, htype, rfl⟩⟩

end Created

section RoundTrip

variable {N : Type} [DecidableEq N]

/-- The bundle of the files, in canonical form. -/
def storedBundle (files : List PreviewFile) : PreviewArtifactBundleV1 :=
  ⟨sortByText (·.path) (files.map (·.stored))⟩

/-- The bundle of the files is within the limits. -/
structure WithinLimits (platform : Platform N) (limits : ArtifactLimits)
    (files : List PreviewFile) : Prop where
  valid : limits.Valid
  fileCount : files.length ≤ limits.maxFiles
  uncompressed : (jsonBytes platform.numbers ((storedBundle files).toJson platform.one)).length ≤
    limits.maxUncompressedBytes
  compressed : (platform.zlib.gzip (jsonBytes platform.numbers
    ((storedBundle files).toJson platform.one))).length ≤ limits.maxCompressedBytes

theorem created_round_trip (platform : Platform N) {limits : ArtifactLimits}
    {files : List PreviewFile} (hsupported : ∀ file ∈ files, file.Supported)
    (hdistinct : (files.map fun file => slashes file.path).Nodup)
    (hentry : entryPath ∈ files.map fun file => slashes file.path)
    (hlimits : WithinLimits platform limits files) :
    ∃ bundle encoded, createPreviewArtifactBundle files = .ok bundle ∧
      encodePreviewArtifact platform bundle limits = .ok encoded ∧
      decodePreviewArtifact platform encoded.compressedBytes encoded.manifest limits =
        .ok (storedBundle files) := by
  have hcanonical : ∀ file ∈ files.map (·.stored), file.Canonical := by
    intro file hf
    obtain ⟨given, hg, rfl⟩ := List.mem_map.mp hf
    exact (hsupported given hg).stored.2.2.2
  have hpaths : (files.map (·.stored)).map (·.path) = files.map fun file => slashes file.path :=
    List.map_map
  have hform := (@canonicalizePreviewBundle_toJson _ platform.one) hcanonical
    (hpaths ▸ hdistinct) (hpaths ▸ hentry)
  have hencoded := encodePreviewArtifact_eq hlimits.valid
    (by rw [List.length_map]; exact hlimits.fileCount) hform hlimits.uncompressed hlimits.compressed
  obtain ⟨canonical, hsame, -, -, -, hdecoded⟩ := encodePreviewArtifact_spec hencoded
  cases hform.symm.trans hsame
  exact ⟨_, _, createPreviewArtifactBundle_eq hsupported, hencoded, hdecoded⟩

/-- Every file is read back at its canonical path, with its bytes and its content type, and
nothing else is. What is read is in canonical form. To encode it again, within the limits, gives
its canonical text, which is read as the same bundle; these are the bytes that were accepted if
they were the canonical text. -/
theorem preview_codec (platform : Platform N) :
    (∀ (limits : ArtifactLimits) (files : List PreviewFile), (∀ file ∈ files, file.Supported) →
      (files.map fun file => slashes file.path).Nodup →
      (entryPath ∈ files.map fun file => slashes file.path) →
      WithinLimits platform limits files →
      ∃ bundle encoded decoded, createPreviewArtifactBundle files = .ok bundle ∧
        encodePreviewArtifact platform bundle limits = .ok encoded ∧
        decodePreviewArtifact platform encoded.compressedBytes encoded.manifest limits =
          .ok decoded ∧
        decoded.files.length = files.length ∧
        ∀ file ∈ files, ∃ read ∈ decoded.files,
          canonicalPreviewPath file.path = .ok read.path ∧
          Base64.decode read.contentBase64 = file.content ∧
          previewContentTypeForPath file.path = .ok read.contentType) ∧
    ∀ (limits : ArtifactLimits) (manifest : ArtifactIntegrity) (compressed : List ℕ)
      (bundle : PreviewArtifactBundleV1),
      decodePreviewArtifact platform compressed manifest limits = .ok bundle →
      bundle.Canonical ∧ ∃ bytes, platform.zlib.inflate compressed = some bytes ∧
        ∀ (limits' : ArtifactLimits) (encoded : EncodedArtifact),
          encodePreviewArtifact platform bundle limits' = .ok encoded →
          encoded.uncompressedBytes = jsonBytes platform.numbers (bundle.toJson platform.one) ∧
          decodePreviewArtifact platform encoded.compressedBytes encoded.manifest limits' =
            .ok bundle ∧
          (encoded.uncompressedBytes = bytes ↔
            bytes = jsonBytes platform.numbers (bundle.toJson platform.one)) := by
  refine ⟨fun limits files hsupported hdistinct hentry hlimits => ?_,
    fun limits manifest compressed bundle hdecode => ?_⟩
  · obtain ⟨bundle, encoded, hcreate, hencode, hdecode⟩ :=
      created_round_trip platform hsupported hdistinct hentry hlimits
    have hperm : (storedBundle files).files.Perm (files.map (·.stored)) := sortByText_perm ..
    refine ⟨bundle, encoded, storedBundle files, hcreate, hencode, hdecode, ?_, fun file hf => ?_⟩
    · rw [hperm.length_eq, List.length_map]
    · obtain ⟨hpath, htype, -, -⟩ := (hsupported file hf).stored
      exact ⟨file.stored, hperm.mem_iff.mpr (List.mem_map_of_mem hf), hpath,
        Base64.decode_encodeStandard (hsupported file hf).bytes, htype⟩
  · obtain ⟨hform, bytes, value, hinflate, -, -⟩ := decodePreviewArtifact_spec hdecode
    refine ⟨hform, bytes, hinflate, fun limits' encoded hencode => ?_⟩
    obtain ⟨canonical, hcanonical, hbytes, -, -, hagain⟩ := encodePreviewArtifact_spec hencode
    cases (canonicalizePreviewBundle_canonical hform).symm.trans hcanonical
    refine ⟨hbytes, hagain, ?_⟩
    rw [hbytes]
    exact eq_comm

end RoundTrip

section Sample

/-- A page of one paragraph. -/
def sampleFiles : List PreviewFile := [⟨text "index.html", Utf8.encode (text "<p>hi</p>")⟩]

def sampleBytes : List ℕ :=
  jsonBytes Json.rationals ((storedBundle sampleFiles).toJson (1 : ℚ))

/-- What `gzip` makes of the text of the bundle. -/
def sampleStream : List ℕ :=
  [31, 139, 8, 0, 0, 0, 0, 0, 2, 3, 171, 86, 42, 75, 45, 42, 206, 204, 207, 83, 178, 50, 212, 81,
   74, 205, 43, 41, 170, 12, 72, 44, 201, 80, 178, 82, 202, 204, 75, 73, 173, 208, 203, 40, 201,
   205, 81, 210, 81, 74, 203, 204, 73, 45, 86, 178, 138, 174, 86, 42, 192, 34, 155, 156, 159, 87,
   2, 212, 234, 148, 88, 156, 106, 102, 2, 148, 12, 240, 112, 212, 78, 116, 207, 182, 240, 49, 118,
   212, 70, 72, 135, 84, 22, 164, 2, 37, 75, 82, 43, 74, 244, 65, 26, 173, 21, 146, 51, 18, 139,
   138, 83, 75, 108, 75, 75, 210, 116, 45, 148, 106, 99, 107, 1, 36, 123, 143, 68, 142, 0, 0, 0]

/-- What `gzip` makes of it where a blank follows the text. -/
def spacedStream : List ℕ :=
  [31, 139, 8, 0, 0, 0, 0, 0, 2, 3, 171, 86, 42, 75, 45, 42, 206, 204, 207, 83, 178, 50, 212, 81,
   74, 205, 43, 41, 170, 12, 72, 44, 201, 80, 178, 82, 202, 204, 75, 73, 173, 208, 203, 40, 201,
   205, 81, 210, 81, 74, 203, 204, 73, 45, 86, 178, 138, 174, 86, 42, 192, 34, 155, 156, 159, 87,
   2, 212, 234, 148, 88, 156, 106, 102, 2, 148, 12, 240, 112, 212, 78, 116, 207, 182, 240, 49, 118,
   212, 70, 72, 135, 84, 22, 164, 2, 37, 75, 82, 43, 74, 244, 65, 26, 173, 21, 146, 51, 18, 139,
   138, 83, 75, 108, 75, 75, 210, 116, 45, 148, 106, 99, 107, 21, 0, 239, 164, 43, 213, 143, 0, 0,
   0]

def spacedBytes : List ℕ := sampleBytes ++ [32]

def samplePlatform : Platform ℚ where
  numbers := Json.rationals
  one := 1
  print_one := by decide
  zlib := .ofTable [(sampleBytes, sampleStream), (spacedBytes, spacedStream)] (by decide)
    (by decide)

def sampleLimits : ArtifactLimits := ⟨1000, 1000, 10⟩

theorem sample_preview_codec : ∃ bundle encoded decoded,
    createPreviewArtifactBundle sampleFiles = .ok bundle ∧
    encodePreviewArtifact samplePlatform bundle sampleLimits = .ok encoded ∧
    decodePreviewArtifact samplePlatform encoded.compressedBytes encoded.manifest sampleLimits =
      .ok decoded ∧
    decoded.files.length = 1 ∧
    ∀ file ∈ sampleFiles, ∃ read ∈ decoded.files,
      canonicalPreviewPath file.path = .ok read.path ∧
      Base64.decode read.contentBase64 = file.content ∧
      previewContentTypeForPath file.path = .ok read.contentType := by
  refine (preview_codec samplePlatform).1 sampleLimits sampleFiles ?_ (by decide) (by decide) ?_
  · intro file hf
    cases List.mem_singleton.mp hf
    exact ⟨⟨text "text/html; charset=utf-8", by decide +kernel⟩, by decide⟩
  · exact ⟨⟨by decide, by decide, by decide⟩, by decide, by decide +kernel, by decide +kernel⟩

/-- The text of the bundle with a blank after it is accepted, and is not what is written. -/
theorem spaced_preview_accepted : ¬ ∀ (platform : Platform ℚ) (limits : ArtifactLimits)
    (manifest : ArtifactIntegrity) (compressed bytes : List ℕ) (bundle : PreviewArtifactBundleV1)
    (encoded : EncodedArtifact),
    decodePreviewArtifact platform compressed manifest limits = .ok bundle →
    platform.zlib.inflate compressed = some bytes →
    encodePreviewArtifact platform bundle limits = .ok encoded →
    encoded.uncompressedBytes = bytes := by
  intro h
  have hdecode : decodePreviewArtifact samplePlatform spacedStream
      (encodedFrom samplePlatform.zlib spacedBytes 1).manifest sampleLimits =
      .ok (storedBundle sampleFiles) := by decide +kernel
  have hform := (@canonicalizePreviewBundle_canonical _ (1 : ℚ))
    (decodePreviewArtifact_spec hdecode).1
  have hencode := (@encodePreviewArtifact_eq _ _ samplePlatform sampleLimits)
    ⟨by decide, by decide, by decide⟩ (by decide) hform (by decide +kernel) (by decide +kernel)
  have hsame : sampleBytes = sampleBytes ++ [32] := h samplePlatform sampleLimits _ spacedStream
    spacedBytes _ _ hdecode (by decide +kernel) hencode
  simp at hsame

end Sample

end AppBuilder.Artifacts
