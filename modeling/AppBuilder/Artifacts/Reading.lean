import AppBuilder.Artifacts.ManifestLaws
import AppBuilder.Artifacts.PreviewRoundTrip

/-! What reading an artifact does to its manifest. -/
namespace AppBuilder.Artifacts
open Agent Async Encoding

section Reads

/-- The calls that read an artifact. -/
inductive ArtifactRead where
  | bundle (artifactId : Text)
  | ownedBundle (artifactId : Text) (workspaceId projectId : ObjectId) (kind : ProjectArtifactKind)
  | ownedPreview (artifactId : Text) (workspaceId projectId : ObjectId)
  deriving DecidableEq

/-- The manifest that a call looks for. -/
def ArtifactRead.filter : ArtifactRead → ManifestFilter
  | .bundle artifactId =>
    { artifactId := some artifactId, kinds := some [.projectSnapshot, .validationCandidate] }
  | .ownedBundle artifactId workspaceId projectId kind =>
    { artifactId := some artifactId, owner := some (workspaceId, projectId),
      kinds := some [kind.toKind] }
  | .ownedPreview artifactId workspaceId projectId =>
    { artifactId := some artifactId, owner := some (workspaceId, projectId),
      kinds := some [.previewBuild] }

variable {N : Type} [DecidableEq N] (platform : Platform N) (config : ArtifactConfig)

def ArtifactRead.run : ArtifactRead → ArtifactPromise ArtifactBundle
  | .bundle artifactId => do
    let bundle ← readBundle platform config artifactId
    return .project bundle
  | .ownedBundle artifactId workspaceId projectId kind => do
    let bundle ← readOwnedBundle platform config artifactId workspaceId projectId kind
    return .project bundle
  | .ownedPreview artifactId workspaceId projectId => do
    let bundle ← readOwnedPreviewBundle platform config artifactId workspaceId projectId
    return .preview bundle

/-- The bytes are exactly those that the manifest describes. -/
def Intact (manifest : ArtifactManifest) (compressed : List ℕ) : Prop :=
  if manifest.kind = .previewBuild then
    ∃ bytes value bundle,
      DescribesPreview platform manifest.integrity compressed bytes value bundle
  else
    ∃ bytes value bundle,
      DescribesProject platform manifest.integrity compressed bytes value bundle

/-- The sizes that a manifest states are within the limits. -/
def ArtifactLimits.Admits (limits : ArtifactLimits) (manifest : ArtifactIntegrity) : Prop :=
  manifest.compressedBytes ≤ limits.maxCompressedBytes ∧
    manifest.uncompressedBytes ≤ limits.maxUncompressedBytes

instance (limits : ArtifactLimits) (manifest : ArtifactIntegrity) :
    Decidable (limits.Admits manifest) := inferInstanceAs (Decidable (_ ∧ _))

end Reads

section Marks

variable {N : Type} [DecidableEq N] {platform : Platform N} {config : ArtifactConfig}
  {uuids : Uuids} {w : ArtifactWorld} {manifest : ArtifactManifest} {compressed : List ℕ}

theorem validateLimits_error {limits : ArtifactLimits} (h : ¬ limits.Valid) :
    ∃ error, validateLimits limits = .error error ∧ error.code = .invalidBundle := by
  have hone : ∀ {value : ℕ} {name : String}, validateLimit value name = .ok () ∨
      ∃ error, validateLimit value name = .error error ∧ error.code = .invalidBundle := by
    intro value name
    unfold validateLimit
    split_ifs
    · exact .inr ⟨_, rfl, rfl⟩
    · exact .inl rfl
  have hrefused : validateLimits limits ≠ .ok () := mt validateLimits_ok_iff.mp h
  unfold validateLimits at hrefused ⊢
  rcases @hone limits.maxCompressedBytes "maxCompressedBytes" with
    hc | ⟨error, he, hcode⟩
  · rcases @hone limits.maxUncompressedBytes "maxUncompressedBytes" with
      hu | ⟨error, he, hcode⟩
    · rcases @hone limits.maxFiles "maxFiles" with hf | ⟨error, he, hcode⟩
      · rw [hc, hu, hf] at hrefused
        exact absurd rfl hrefused
      · rw [hc, hu, he]
        exact ⟨error, rfl, hcode⟩
    · rw [hc, he]
      exact ⟨error, rfl, hcode⟩
  · rw [he]
    exact ⟨error, rfl, hcode⟩

/-- The limits alone never make the codec of project bundles report corruption. -/
theorem decodeProjectArtifact_intact {bytes : List ℕ} {value : Json N}
    {bundle : ProjectArtifactBundleV1} {integrity : ArtifactIntegrity} {error : ArtifactError}
    (h : DescribesProject platform integrity compressed bytes value bundle)
    (he : decodeProjectArtifact platform compressed integrity config.limits = .error error) :
    isContentVerificationError (ofCodec error) = false := by
  by_cases hvalid : config.limits.Valid
  · rw [decodeProjectArtifact_eq h hvalid] at he
    split_ifs at he
    all_goals
      cases he
      rfl
  · obtain ⟨refusal, hr, hcode⟩ := validateLimits_error hvalid
    rw [decodeProjectArtifact, hr] at he
    cases he
    simp [isContentVerificationError, ofCodec, ArtifactFailure.hasCode, hcode]

/-- The codec of preview bundles reports corruption where a size exceeds its limit. -/
theorem decodePreviewArtifact_intact {bytes : List ℕ} {value : Json N}
    {bundle : PreviewArtifactBundleV1} {integrity : ArtifactIntegrity}
    (h : DescribesPreview platform integrity compressed bytes value bundle) :
    (∃ error, decodePreviewArtifact platform compressed integrity config.limits = .error error ∧
        isContentVerificationError (ofCodec error) = true) ↔
      config.limits.Valid ∧ ¬ config.limits.Admits integrity := by
  have hsizes : config.limits.Admits integrity ↔
      ¬ compressed.length > config.limits.maxCompressedBytes ∧
        ¬ bytes.length > config.limits.maxUncompressedBytes := by
    rw [ArtifactLimits.Admits, h.compressedBytes, h.uncompressedBytes, not_lt, not_lt]
  by_cases hvalid : config.limits.Valid
  · rw [decodePreviewArtifact_eq h hvalid, hsizes]
    by_cases hc : compressed.length > config.limits.maxCompressedBytes
    · rw [if_pos hc]
      exact ⟨fun _ => ⟨hvalid, fun hboth => hboth.1 hc⟩, fun _ => ⟨_, rfl, rfl⟩⟩
    by_cases hu : bytes.length > config.limits.maxUncompressedBytes
    · rw [if_neg hc, if_pos hu]
      exact ⟨fun _ => ⟨hvalid, fun hboth => hboth.2 hu⟩, fun _ => ⟨_, rfl, rfl⟩⟩
    · rw [if_neg hc, if_neg hu]
      refine ⟨?_, fun hboth => absurd ⟨hc, hu⟩ hboth.2⟩
      rintro ⟨error, he, hcontent⟩
      split_ifs at he
      cases he
      cases hcontent
  · obtain ⟨refusal, hr, hcode⟩ := validateLimits_error hvalid
    have hrefused : decodePreviewArtifact platform compressed integrity config.limits =
        .error refusal := by
      rw [decodePreviewArtifact, hr]
      rfl
    rw [hrefused]
    refine ⟨?_, fun hboth => absurd hboth.1 hvalid⟩
    rintro ⟨error, he, hcontent⟩
    cases he
    simp [isContentVerificationError, ofCodec, ArtifactFailure.hasCode, hcode] at hcontent

/-- An intact artifact fails its verification where a preview build exceeds a size limit. -/
theorem stored_intact_iff (hblob : w.blobs manifest.storageKey = some compressed)
    (hintact : Intact platform manifest compressed) :
    (∃ error, stored platform config w manifest = .error error ∧
        isContentVerificationError error = true) ↔
      manifest.kind = .previewBuild ∧ config.limits.Valid ∧
        ¬ config.limits.Admits manifest.integrity := by
  have hstored : stored platform config w manifest =
      (decodeByKind platform config.limits manifest.kind compressed manifest.integrity).mapError
        ofCodec := by
    rw [stored, ArtifactWorld.fetchWith, ArtifactWorld.fetch, hblob]
  rw [hstored, decodeByKind]
  rw [Intact] at hintact
  split_ifs at hintact with hkind
  · obtain ⟨bytes, value, bundle, hdescribes⟩ := hintact
    have hiff := (@decodePreviewArtifact_intact _ _ _ config) hdescribes
    rw [if_pos hkind, ← hiff, and_iff_right hkind]
    cases decodePreviewArtifact platform compressed manifest.integrity config.limits with
    | ok bundle =>
      constructor
      · rintro ⟨_, he, -⟩
        cases he
      · rintro ⟨_, he, -⟩
        cases he
    | error error =>
      constructor
      · rintro ⟨_, he, hcontent⟩
        cases he
        exact ⟨error, rfl, hcontent⟩
      · rintro ⟨_, he, hcontent⟩
        cases he
        exact ⟨_, rfl, hcontent⟩
  · obtain ⟨bytes, value, bundle, hdescribes⟩ := hintact
    rw [if_neg hkind]
    refine ⟨?_, fun h => absurd h.1 hkind⟩
    rintro ⟨error, he, hcontent⟩
    cases hdecode : decodeProjectArtifact platform compressed manifest.integrity config.limits with
    | ok bundle =>
      rw [hdecode] at he
      cases he
    | error refusal =>
      rw [hdecode] at he
      cases he
      rw [decodeProjectArtifact_intact hdescribes hdecode] at hcontent
      cases hcontent

theorem evaluate_markCorrupt (artifactId : Text) (error : ArtifactFailure)
    (state : ArtifactManifestState) :
    (markCorrupt artifactId error state).evaluate (ArtifactWorld.exec uuids) w =
      (.ok (), w.updateOne artifactId state (.corrupt (corruptionCode error))) :=
  Prog.evaluate_bind_ok (@evaluate_performOp uuids
    (.updateOne artifactId state (.corrupt (corruptionCode error))) _ _ _ rfl) _

/-- The world after a verification whose failure marks the manifest. -/
def marked {α : Type} (w : ArtifactWorld) (artifactId : Text) :
    Except ArtifactFailure α → ArtifactWorld
  | .ok _ => w
  | .error error =>
    if isContentVerificationError error then
      w.updateOne artifactId .ready (.corrupt (corruptionCode error))
    else w

theorem marked_map {α β : Type} (f : α → β) (artifactId : Text)
    (answer : Except ArtifactFailure α) :
    marked w artifactId (answer.map f) = marked w artifactId answer := by
  cases answer <;> rfl

/-- A verification whose failure marks the manifest, and is thrown again. -/
theorem evaluate_marking {α : Type} {verify : ArtifactPromise α} {answer : Except ArtifactFailure α}
    {rethrow : ArtifactFailure → ArtifactPromise α} (artifactId : Text)
    (hverify : verify.evaluate (ArtifactWorld.exec uuids) w = (answer, w))
    (hrethrow : ∀ error w', ((rethrow error).evaluate (ArtifactWorld.exec uuids) w').2 = w') :
    ((verify.tryCatch fun error =>
        if !isContentVerificationError error then .throw error
        else do
          markCorrupt artifactId error .ready
          rethrow error).evaluate (ArtifactWorld.exec uuids) w).2 = marked w artifactId answer := by
  cases answer with
  | ok a =>
    rw [Prog.evaluate_tryCatch_ok hverify]
    rfl
  | error error =>
    rw [Prog.evaluate_tryCatch_error hverify]
    cases hcontent : isContentVerificationError error with
    | false =>
      simp only [marked, hcontent]
      rfl
    | true =>
      simp only [marked, hcontent]
      change (((markCorrupt artifactId error .ready).bind fun _ => rethrow error).evaluate
        (ArtifactWorld.exec uuids) w).2 = _
      rw [Prog.evaluate_bind_ok (evaluate_markCorrupt ..), hrethrow]
      rfl

theorem evaluate_readManifest (hready : manifest.state = .ready)
    (hkind : manifest.kind ≠ .previewBuild) :
    ((readManifest platform config (some manifest)).evaluate (ArtifactWorld.exec uuids) w).2 =
      marked w manifest.artifactId (stored platform config w manifest) := by
  unfold readManifest stored decodeByKind
  simp only [hready, if_neg hkind]
  rw [← fetchWith_map, marked_map]
  refine evaluate_marking manifest.artifactId (evaluate_verifyStored manifest w) fun error w' => ?_
  split_ifs <;> rfl

/-- What a read of a ready artifact does to the world. -/
theorem evaluate_read {read : ArtifactRead} (hfound : w.findOne read.filter = some manifest)
    (hready : manifest.state = .ready) :
    ((read.run platform config).evaluate (ArtifactWorld.exec uuids) w).2 =
      marked w manifest.artifactId (stored platform config w manifest) := by
  have hmatch : read.filter.matches manifest = true := List.find?_some hfound
  have hfind : (performOp (.findOne read.filter)).evaluate (ArtifactWorld.exec uuids) w =
      (.ok (some manifest), w) := evaluate_performOp (by rw [← hfound]; rfl)
  have hmap : ∀ {α β : Type} (p : ArtifactPromise α) (f : α → β),
      ((p.bind fun a => .pure (f a)).evaluate (ArtifactWorld.exec uuids) w).2 =
        (p.evaluate (ArtifactWorld.exec uuids) w).2 := by
    intro α β p f
    rw [(@evaluate_map _ _ _ _ _ _ _ ((p.evaluate (ArtifactWorld.exec uuids) w).1)) rfl]
  cases read with
  | bundle artifactId =>
    have hkind : manifest.kind ≠ .previewBuild := by
      intro he
      simp [ArtifactRead.filter, ManifestFilter.matches, he] at hmatch
    exact (hmap ..).trans ((congrArg Prod.snd (Prog.evaluate_bind_ok hfind _)).trans
      (evaluate_readManifest hready hkind))
  | ownedBundle artifactId workspaceId projectId kind =>
    have hkind : manifest.kind ≠ .previewBuild := by
      intro he
      cases kind <;>
        simp [ArtifactRead.filter, ManifestFilter.matches, ProjectArtifactKind.toKind, he] at hmatch
    exact (hmap ..).trans ((congrArg Prod.snd (Prog.evaluate_bind_ok hfind _)).trans
      (evaluate_readManifest hready hkind))
  | ownedPreview artifactId workspaceId projectId =>
    have hkind : manifest.kind = .previewBuild := by
      simp only [ArtifactRead.filter, ManifestFilter.matches, Bool.and_eq_true] at hmatch
      simpa using hmatch.2
    refine (hmap ..).trans ((congrArg Prod.snd (Prog.evaluate_bind_ok hfind _)).trans ?_)
    unfold stored decodeByKind
    simp only [hready, if_pos hkind]
    rw [← fetchWith_map, marked_map]
    exact evaluate_marking manifest.artifactId (evaluate_verifyStoredPreview manifest w)
      fun _ _ => rfl

/-- Reading a ready artifact whose bytes are intact leaves it as it is, except where a preview build
exceeds a size limit. -/
theorem read_keeps_iff {read : ArtifactRead} (hw : w.WellFormed)
    (hfound : w.findOne read.filter = some manifest) (hready : manifest.state = .ready)
    (hblob : w.blobs manifest.storageKey = some compressed)
    (hintact : Intact platform manifest compressed) :
    (∀ after, ((read.run platform config).evaluate (ArtifactWorld.exec uuids) w).2.manifest?
        manifest.artifactId = some after → after.state ≠ .corrupt) ↔
      manifest.kind ≠ .previewBuild ∨ ¬ config.limits.Valid ∨
        config.limits.Admits manifest.integrity := by
  have hmanifest := hw.manifest? (List.mem_of_find?_eq_some hfound)
  have hiff := (@stored_intact_iff _ _ _ config) hblob hintact
  rw [evaluate_read hfound hready]
  have hkept : (∀ after, w.manifest? manifest.artifactId = some after →
      after.state ≠ .corrupt) := by
    intro after ha
    cases hmanifest.symm.trans ha
    rw [hready]
    exact nofun
  cases hs : stored platform config w manifest with
  | ok bundle =>
    have hnot : ¬ (manifest.kind = .previewBuild ∧ config.limits.Valid ∧
        ¬ config.limits.Admits manifest.integrity) := by
      rw [← hiff, hs]
      rintro ⟨_, he, -⟩
      cases he
    refine ⟨fun _ => ?_, fun _ => hkept⟩
    tauto
  | error error =>
    rw [hs] at hiff
    cases hcontent : isContentVerificationError error with
    | false =>
      have hnot : ¬ (manifest.kind = .previewBuild ∧ config.limits.Valid ∧
          ¬ config.limits.Admits manifest.integrity) := by
        rw [← hiff]
        rintro ⟨_, he, hc⟩
        cases he
        rw [hcontent] at hc
        cases hc
      simp only [marked, hcontent]
      refine ⟨fun _ => ?_, fun _ => hkept⟩
      tauto
    | true =>
      have hmarked := hiff.mp ⟨error, rfl, hcontent⟩
      simp only [marked, hcontent]
      constructor
      · intro h
        refine absurd ?_ (h { manifest with
          state := .corrupt, errorCode := some (corruptionCode error), updatedAt := w.clock } ?_)
        · rfl
        · rw [if_pos trivial, ArtifactWorld.manifest?_updateOne, hmanifest, Option.map_some,
            if_pos ⟨rfl, hready⟩]
          rfl
      · intro h
        tauto

end Marks

section Sample

def sampleEncoded : EncodedArtifact := encodedFrom samplePlatform.zlib sampleBytes 1

/-- A preview of one page that was published. -/
def sampleManifest : ArtifactManifest where
  artifactId := text "0123456789abcdef0123456789abcdef"
  workspaceId := 1
  projectId := 2
  createdByRunId := 3
  kind := .previewBuild
  idempotencyKey := text "preview:3"
  integrity := sampleEncoded.manifest
  storageKey := storageKeyFor (text "0123456789abcdef0123456789abcdef")
  state := .ready
  _id := 1
  errorCode := none
  updatedAt := 0

def sampleWorld : ArtifactWorld where
  clock := 10
  nextId := 2
  nextUuid := 0
  manifests := [sampleManifest]
  blobs := fun key => if key = sampleManifest.storageKey then some sampleStream else none
  snapshots := []
  candidates := []
  leases := []

def samplePreviewRead : ArtifactRead := .ownedPreview sampleManifest.artifactId 1 2

theorem sampleWorld_wellFormed : sampleWorld.WellFormed :=
  ⟨by decide, by decide, by decide, by decide⟩

theorem sample_intact : Intact samplePlatform sampleManifest sampleStream := by
  have hdecode : decodePreviewArtifact samplePlatform sampleStream sampleManifest.integrity
      sampleLimits = .ok (storedBundle sampleFiles) := by decide +kernel
  have hform := (decodePreviewArtifact_spec hdecode).1
  have hencode := (@encodePreviewArtifact_eq _ _ samplePlatform sampleLimits)
    ⟨by decide, by decide, by decide⟩ (by decide)
    ((@canonicalizePreviewBundle_canonical _ (1 : ℚ)) hform) (by decide +kernel)
    (by decide +kernel)
  obtain ⟨canonical, -, -, -, hdescribes, -⟩ := encodePreviewArtifact_spec hencode
  have hbytes : jsonBytes samplePlatform.numbers
      ((storedBundle sampleFiles).toJson samplePlatform.one) = sampleBytes := rfl
  have hlength : (storedBundle sampleFiles).files.length = 1 := by decide
  have hstream : (encodedFrom samplePlatform.zlib sampleBytes 1).compressedBytes = sampleStream := by
    decide +kernel
  have hintegrity : sampleManifest.integrity =
      (encodedFrom samplePlatform.zlib sampleBytes 1).manifest := by
    rw [sampleManifest, sampleEncoded]
  have hkind : sampleManifest.kind = .previewBuild := rfl
  rw [hbytes, hlength, hstream, ← hintegrity] at hdescribes
  rw [Intact, if_pos hkind]
  exact ⟨_, _, canonical, hdescribes⟩

theorem sample_found : sampleWorld.findOne samplePreviewRead.filter = some sampleManifest := by
  decide +kernel

theorem sample_blob : sampleWorld.blobs sampleManifest.storageKey = some sampleStream := by
  decide

theorem sample_read_keeps :
    (((samplePreviewRead.run samplePlatform ⟨sampleLimits, 1, 1⟩).evaluate
      (ArtifactWorld.exec countedUuids) sampleWorld).2.manifest? sampleManifest.artifactId).map
        (·.state) ≠ some .corrupt := by
  intro hcorrupt
  obtain ⟨after, hafter, hstate⟩ := Option.map_eq_some_iff.mp hcorrupt
  exact (read_keeps_iff sampleWorld_wellFormed sample_found rfl sample_blob sample_intact).mpr
    (.inr (.inr (by decide +kernel))) after hafter hstate

/-- A limit on the compressed size that was lowered to ten bytes. -/
theorem lowered_limit_marks_corrupt : ¬ ∀ (config : ArtifactConfig) (read : ArtifactRead)
    (w : ArtifactWorld) (manifest : ArtifactManifest) (compressed : List ℕ), w.WellFormed →
    w.findOne read.filter = some manifest → manifest.state = .ready →
    w.blobs manifest.storageKey = some compressed → Intact samplePlatform manifest compressed →
    ∀ after, ((read.run samplePlatform config).evaluate (ArtifactWorld.exec countedUuids)
      w).2.manifest? manifest.artifactId = some after → after.state ≠ .corrupt := by
  intro h
  have hcorrupt : (((samplePreviewRead.run samplePlatform ⟨⟨10, 1000, 10⟩, 1, 1⟩).evaluate
      (ArtifactWorld.exec countedUuids) sampleWorld).2.manifest? sampleManifest.artifactId).map
      (·.state) = some .corrupt := by decide +kernel
  obtain ⟨after, hafter, hstate⟩ := Option.map_eq_some_iff.mp hcorrupt
  exact h ⟨⟨10, 1000, 10⟩, 1, 1⟩ samplePreviewRead sampleWorld sampleManifest sampleStream
    sampleWorld_wellFormed sample_found rfl sample_blob sample_intact after hafter hstate

end Sample

end AppBuilder.Artifacts
