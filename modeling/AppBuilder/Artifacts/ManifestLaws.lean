import AppBuilder.Artifacts.Reconciler

/-! What the operations on manifests and blobs do to a world in which artifact ids are unique. -/
namespace AppBuilder.Artifacts
open Agent Async Encoding

variable {N : Type} [DecidableEq N] {platform : Platform N} {config : ArtifactConfig}
  {uuids : Uuids}

section Keys

theorem length_storageKeyFor (artifactId : Text) : (storageKeyFor artifactId).length =
    (artifactId.take 2).length + ((artifactId.drop 2).take 2).length + artifactId.length + 13 := by
  have hparts : (text "v1/").length = 3 ∧ (text "/").length = 1 ∧ (text ".json.gz").length = 8 := by
    decide
  simp only [storageKeyFor, List.length_append, hparts]
  omega

/-- Each artifact has a place of its own in the store. -/
theorem storageKeyFor_injective {a b : Text} (h : storageKeyFor a = storageKeyFor b) : a = b := by
  have hlength := congrArg List.length h
  rw [length_storageKeyFor, length_storageKeyFor] at hlength
  simp only [List.length_take, List.length_drop] at hlength
  have hsame : a.length = b.length := by omega
  unfold storageKeyFor at h
  have hid := (List.append_inj' (List.append_inj' h rfl).1 hsame).2
  exact hid

end Keys

/-- Numbers in 32 hexadecimal digits, as long as they fit. -/
def countedUuids : Uuids where
  uuid n := if n < 16 ^ 32 then Hex.digits 32 n else List.replicate n 'x'
  injective := by
    intro m n h
    by_cases hm : m < 16 ^ 32
    · rw [if_pos hm] at h
      split_ifs at h with hn
      · have hnumber := congrArg Hex.number h
        rw [Hex.number_digits _ _ hm, Hex.number_digits _ _ hn] at hnumber
        exact Option.some.inj hnumber
      · have hlength := congrArg List.length h
        rw [Hex.length_digits, List.length_replicate] at hlength
        omega
    · rw [if_neg hm] at h
      have hlength := congrArg List.length h
      split_ifs at hlength with hn
      · rw [Hex.length_digits, List.length_replicate] at hlength
        omega
      · rwa [List.length_replicate, List.length_replicate] at hlength

section Decoding

/-- What the codec of the kind makes of the bytes. -/
def decodeByKind (platform : Platform N) (limits : ArtifactLimits) (kind : ArtifactKind)
    (bytes : List ℕ) (manifest : ArtifactIntegrity) : Except ArtifactError ArtifactBundle :=
  if kind = .previewBuild then (decodePreviewArtifact platform bytes manifest limits).map .preview
  else (decodeProjectArtifact platform bytes manifest limits).map .project

/-- What is made of the bytes under a storage key. -/
def ArtifactWorld.fetchWith {α : Type} (w : ArtifactWorld) (storageKey : Text)
    (decode : List ℕ → Except ArtifactError α) : Except ArtifactFailure α :=
  match w.fetch storageKey with
  | .error error => .error error
  | .ok bytes => (decode bytes).mapError ofCodec

/-- What verification finds under a manifest. -/
def stored (platform : Platform N) (config : ArtifactConfig) (w : ArtifactWorld)
    (manifest : ArtifactManifest) : Except ArtifactFailure ArtifactBundle :=
  w.fetchWith manifest.storageKey fun bytes =>
    decodeByKind platform config.limits manifest.kind bytes manifest.integrity

theorem evaluate_performOp {op : ArtifactOp} {w w' : ArtifactWorld}
    {answer : Except ArtifactFailure op.Reply}
    (h : ArtifactWorld.exec uuids op w = (answer, w')) :
    (performOp op).evaluate (ArtifactWorld.exec uuids) w = (answer, w') :=
  (Prog.evaluate_perform ..).trans h

theorem evaluate_raise {α : Type} (result : Except ArtifactError α) (w : ArtifactWorld) :
    (raise result).evaluate (ArtifactWorld.exec uuids) w = (result.mapError ofCodec, w) := by
  cases result <;> rfl

theorem evaluate_fetchWith {α : Type} (storageKey : Text)
    (decode : List ℕ → Except ArtifactError α) (w : ArtifactWorld) :
    ((performOp (.get storageKey)).bind fun bytes => raise (decode bytes)).evaluate
      (ArtifactWorld.exec uuids) w = (w.fetchWith storageKey decode, w) := by
  have hget := (@evaluate_performOp uuids (.get storageKey) w) rfl
  unfold ArtifactWorld.fetchWith
  cases hb : w.fetch storageKey with
  | error e =>
    rw [hb] at hget
    rw [Prog.evaluate_bind_error hget]
  | ok bytes =>
    rw [hb] at hget
    rw [Prog.evaluate_bind_ok hget, evaluate_raise]

/-- Verification only reads. -/
theorem evaluate_verifyStored (manifest : ArtifactManifest) (w : ArtifactWorld) :
    (verifyStored platform config manifest).evaluate (ArtifactWorld.exec uuids) w =
      (w.fetchWith manifest.storageKey fun bytes =>
        decodeProjectArtifact platform bytes manifest.integrity config.limits, w) :=
  evaluate_fetchWith ..

theorem evaluate_verifyStoredPreview (manifest : ArtifactManifest) (w : ArtifactWorld) :
    (verifyStoredPreview platform config manifest).evaluate (ArtifactWorld.exec uuids) w =
      (w.fetchWith manifest.storageKey fun bytes =>
        decodePreviewArtifact platform bytes manifest.integrity config.limits, w) :=
  evaluate_fetchWith ..

theorem fetchWith_map {α β : Type} (f : α → β) (storageKey : Text)
    (decode : List ℕ → Except ArtifactError α) (w : ArtifactWorld) :
    (w.fetchWith storageKey decode).map f = w.fetchWith storageKey fun bytes =>
      (decode bytes).map f := by
  unfold ArtifactWorld.fetchWith
  cases w.fetch storageKey with
  | error e => rfl
  | ok bytes =>
    dsimp only
    cases decode bytes <;> rfl

theorem evaluate_map {α β : Type} {p : ArtifactPromise α} {f : α → β} {w w' : ArtifactWorld}
    {answer : Except ArtifactFailure α}
    (h : p.evaluate (ArtifactWorld.exec uuids) w = (answer, w')) :
    (p.bind fun a => .pure (f a)).evaluate (ArtifactWorld.exec uuids) w = (answer.map f, w') := by
  rw [Prog.evaluate_bind, h]
  cases answer <;> rfl

theorem evaluate_verifyStoredByKind (manifest : ArtifactManifest) (w : ArtifactWorld) :
    (verifyStoredByKind platform config manifest).evaluate (ArtifactWorld.exec uuids) w =
      (stored platform config w manifest, w) := by
  unfold verifyStoredByKind stored decodeByKind
  split_ifs with hkind
  · rw [← fetchWith_map]
    exact evaluate_map (evaluate_verifyStoredPreview manifest w)
  · rw [← fetchWith_map]
    exact evaluate_map (evaluate_verifyStored manifest w)

end Decoding

namespace ArtifactWorld

variable {w : ArtifactWorld} {artifactId : Text} {manifest : ArtifactManifest}

/-- The unique indexes, and the place of each blob. -/
structure WellFormed (w : ArtifactWorld) : Prop where
  ids : (w.manifests.map (·._id)).Nodup
  artifactIds : (w.manifests.map (·.artifactId)).Nodup
  idempotencyKeys : (w.manifests.map (·.idempotencyKey)).Nodup
  storageKeys : ∀ manifest ∈ w.manifests, manifest.storageKey = storageKeyFor manifest.artifactId

theorem mem_of_manifest? (h : w.manifest? artifactId = some manifest) :
    manifest ∈ w.manifests ∧ manifest.artifactId = artifactId :=
  ⟨List.mem_of_find?_eq_some h, by simpa using List.find?_some h⟩

theorem WellFormed.manifest? (hw : w.WellFormed) (h : manifest ∈ w.manifests) :
    w.manifest? manifest.artifactId = some manifest := by
  cases hfind : w.manifest? manifest.artifactId with
  | none => exact absurd BEq.rfl (List.find?_eq_none.mp hfind manifest h)
  | some found =>
    obtain ⟨hmem, hid⟩ := mem_of_manifest? hfind
    exact congrArg some (List.inj_on_of_nodup_map hw.artifactIds hmem h hid)

theorem WellFormed.eq_of_artifactId (hw : w.WellFormed) {other : ArtifactManifest}
    (h : manifest ∈ w.manifests) (h' : other ∈ w.manifests)
    (hid : manifest.artifactId = other.artifactId) : manifest = other :=
  List.inj_on_of_nodup_map hw.artifactIds h h' hid

@[simp] theorem apply_artifactId (change : ManifestChange) (now : Time) (m : ArtifactManifest) :
    (change.apply now m).artifactId = m.artifactId := by
  cases change <;> rfl

theorem manifest?_updateOne (state : ArtifactManifestState) (change : ManifestChange)
    (other : Text) : (w.updateOne artifactId state change).manifest? other =
      (w.manifest? other).map fun m =>
        if m.artifactId = artifactId ∧ m.state = state then change.apply w.clock m else m := by
  unfold ArtifactWorld.manifest? updateOne
  rw [List.find?_map]
  congr 2
  funext m
  rw [Function.comp_apply]
  split_ifs
  · rw [apply_artifactId]
  · rfl

end ArtifactWorld

end AppBuilder.Artifacts
