import AppBuilder.Artifacts.Manifests

/-! `artifactService.ts`: artifacts are written once and verified whenever they are read. -/
namespace AppBuilder.Artifacts
open Agent Async Encoding

abbrev ArtifactPromise (α : Type) : Type := Prog artifactApi α

/-- Await an operation of the database or of the store. -/
abbrev performOp (op : ArtifactOp) : ArtifactPromise op.Reply := Prog.perform (I := artifactApi) op

inductive ProjectArtifactKind where
  | projectSnapshot
  | validationCandidate
  deriving DecidableEq, Repr

def ProjectArtifactKind.toKind : ProjectArtifactKind → ArtifactKind
  | .projectSnapshot => .projectSnapshot
  | .validationCandidate => .validationCandidate

structure ArtifactWriteMetadata where
  workspaceId : ObjectId
  projectId : ObjectId
  createdByRunId : ObjectId
  kind : ArtifactKind
  idempotencyKey : Text
  deriving DecidableEq

structure ArtifactConfig where
  limits : ArtifactLimits
  writingTimeoutMs : ℕ
  orphanRetentionMs : ℕ
  deriving DecidableEq

inductive ArtifactBundle where
  | project (bundle : ProjectArtifactBundleV1)
  | preview (bundle : PreviewArtifactBundleV1)
  deriving DecidableEq

def isDuplicateKey (error : ArtifactFailure) : Bool := error == .duplicateKey

def hasCauseCode (error : ArtifactFailure) (code : String) : Bool :=
  match error with
  | .artifact _ cause => cause == some code
  | .duplicateKey | .other => false

def isRecoverableExistingBlob (error : ArtifactFailure) : Bool :=
  error.hasCode .writeFailed && hasCauseCode error "EEXIST"

def isContentVerificationError (error : ArtifactFailure) : Bool :=
  error.hasCode .corrupt || error.hasCode .formatUnsupported

/-- The `errorCode` of a manifest that is marked corrupt. -/
def corruptionCode : ArtifactFailure → ArtifactErrorCode
  | .artifact error _ => error.code
  | .duplicateKey | .other => .corrupt

/-- An `ArtifactError` that a codec throws. -/
def ofCodec (error : ArtifactError) : ArtifactFailure := .artifact error none

def raise {α : Type} : Except ArtifactError α → ArtifactPromise α
  | .ok a => .pure a
  | .error error => .throw (ofCodec error)

section Service

variable {N : Type} [DecidableEq N] (platform : Platform N) (config : ArtifactConfig)

def verifyStored (manifest : ArtifactManifest) : ArtifactPromise ProjectArtifactBundleV1 := do
  let bytes : List ℕ ← performOp (.get manifest.storageKey)
  raise (decodeProjectArtifact platform bytes manifest.integrity config.limits)

def verifyStoredPreview (manifest : ArtifactManifest) :
    ArtifactPromise PreviewArtifactBundleV1 := do
  let bytes : List ℕ ← performOp (.get manifest.storageKey)
  raise (decodePreviewArtifact platform bytes manifest.integrity config.limits)

def verifyStoredByKind (manifest : ArtifactManifest) : ArtifactPromise ArtifactBundle :=
  if manifest.kind = .previewBuild then do
    let bundle ← verifyStoredPreview platform config manifest
    return .preview bundle
  else do
    let bundle ← verifyStored platform config manifest
    return .project bundle

def verifyManifestBundle (manifest : ArtifactManifest) : ArtifactPromise ArtifactBundle :=
  verifyStoredByKind platform config manifest

def markCorrupt (artifactId : Text) (error : ArtifactFailure)
    (expectedState : ArtifactManifestState := .writing) : ArtifactPromise Unit := do
  let _ : Bool ← performOp (.updateOne artifactId expectedState (.corrupt (corruptionCode error)))
  return ()

def draftFrom (artifactId : Text) (input : ArtifactWriteMetadata) (encoded : EncodedArtifact) :
    ManifestDraft where
  artifactId := artifactId
  workspaceId := input.workspaceId
  projectId := input.projectId
  createdByRunId := input.createdByRunId
  kind := input.kind
  idempotencyKey := input.idempotencyKey
  integrity := encoded.manifest
  storageKey := storageKeyFor artifactId
  state := .writing

def createOrLoadManifest (input : ArtifactWriteMetadata) (encoded : EncodedArtifact) :
    ArtifactPromise ArtifactManifest := do
  let artifactId : Text ← performOp .randomUUID
  (performOp (.create (draftFrom artifactId input encoded))).tryCatch fun error =>
    if !isDuplicateKey error then .throw error
    else do
      let existing : Option ArtifactManifest ←
        performOp (.findOne { idempotencyKey := some input.idempotencyKey })
      match existing with
      | none => .throw error
      | some manifest => return manifest

/-- A no-clobber put may find the blob that another writer, or an earlier one, has published. -/
def putOrRecover (manifest : ArtifactManifest) (encoded : EncodedArtifact) :
    ArtifactPromise Unit :=
  (performOp (.put manifest.storageKey encoded.compressedBytes)).tryCatch fun error =>
    if !isRecoverableExistingBlob error then .throw error
    else
      (do
        let _ ← verifyStoredByKind platform config manifest
        return ()).tryCatch fun verificationError => do
          if isContentVerificationError verificationError then
            markCorrupt manifest.artifactId verificationError
          .throw verificationError

def verifyOrMark (manifest : ArtifactManifest) : ArtifactPromise Unit :=
  (do
    let _ ← verifyStoredByKind platform config manifest
    return ()).tryCatch fun error => do
      if isContentVerificationError error then markCorrupt manifest.artifactId error
      .throw error

/-- The transition to `ready`, which another writer may have made before. -/
def publish (manifest : ArtifactManifest) (encoded : EncodedArtifact) : ArtifactPromise Text := do
  let modified : Bool ← performOp (.updateOne manifest.artifactId .writing .ready)
  if modified then return manifest.artifactId
  else
    let current : Option ArtifactManifest ←
      performOp (.findOne { artifactId := some manifest.artifactId })
    if current.any fun m => m.state == .ready && m.integrity.sha256 == encoded.sha256 then
      return manifest.artifactId
    else
      .throw (artifactError .writeFailed "Artifact manifest state changed during publication")

def writeEncoded (input : ArtifactWriteMetadata) (encoded : EncodedArtifact) :
    ArtifactPromise Text := do
  let manifest ← createOrLoadManifest input encoded
  if manifest.integrity.sha256 ≠ encoded.sha256 then
    .throw (artifactError .idempotencyConflict
      "The idempotency key already identifies different artifact content")
  else match manifest.state with
    | .corrupt => .throw (artifactError .corrupt "The artifact is corrupt")
    | .deletePending => .throw (artifactError .notFound "The artifact is pending deletion")
    | .ready => do
      let _ ← verifyStoredByKind platform config manifest
      return manifest.artifactId
    | .writing => do
      putOrRecover platform config manifest encoded
      verifyOrMark platform config manifest
      publish manifest encoded

/-- What is encoded: the kind of a project bundle is one of the two kinds for projects. -/
structure WriteInput where
  workspaceId : ObjectId
  projectId : ObjectId
  createdByRunId : ObjectId
  idempotencyKey : Text
  deriving DecidableEq

def WriteInput.metadata (input : WriteInput) (kind : ArtifactKind) : ArtifactWriteMetadata where
  workspaceId := input.workspaceId
  projectId := input.projectId
  createdByRunId := input.createdByRunId
  kind := kind
  idempotencyKey := input.idempotencyKey

def writeBundle (input : WriteInput) (kind : ProjectArtifactKind)
    (bundle : ProjectArtifactBundleV1) : ArtifactPromise Text := do
  let encoded ← raise (encodeProjectArtifact platform bundle config.limits)
  writeEncoded platform config (input.metadata kind.toKind) encoded

def writePreviewBundle (input : WriteInput) (bundle : PreviewArtifactBundleV1) :
    ArtifactPromise Text := do
  let encoded ← raise (encodePreviewArtifact platform bundle config.limits)
  writeEncoded platform config (input.metadata .previewBuild) encoded

def readManifest (found : Option ArtifactManifest) : ArtifactPromise ProjectArtifactBundleV1 :=
  match found with
  | none => .throw (artifactError .notFound "Artifact manifest not found")
  | some manifest =>
    match manifest.state with
    | .corrupt => .throw (artifactError .corrupt "The artifact is corrupt")
    | .writing | .deletePending => .throw (artifactError .notFound "Artifact is not ready")
    | .ready =>
      (verifyStored platform config manifest).tryCatch fun error =>
        if !isContentVerificationError error then .throw error
        else do
          markCorrupt manifest.artifactId error .ready
          if error.hasCode .formatUnsupported then .throw error
          else .throw (artifactError .corrupt "Artifact content failed verification")

def readBundle (artifactId : Text) : ArtifactPromise ProjectArtifactBundleV1 := do
  let manifest : Option ArtifactManifest ← performOp (.findOne {
    artifactId := some artifactId, kinds := some [.projectSnapshot, .validationCandidate] })
  readManifest platform config manifest

def readOwnedBundle (artifactId : Text) (workspaceId projectId : ObjectId)
    (kind : ProjectArtifactKind) : ArtifactPromise ProjectArtifactBundleV1 := do
  let manifest : Option ArtifactManifest ← performOp (.findOne {
    artifactId := some artifactId, owner := some (workspaceId, projectId),
    kinds := some [kind.toKind] })
  readManifest platform config manifest

def readOwnedPreviewBundle (artifactId : Text) (workspaceId projectId : ObjectId) :
    ArtifactPromise PreviewArtifactBundleV1 := do
  let found : Option ArtifactManifest ← performOp (.findOne {
    artifactId := some artifactId, owner := some (workspaceId, projectId),
    kinds := some [.previewBuild] })
  match found with
  | none => .throw (artifactError .notFound "Preview artifact manifest not found")
  | some manifest =>
    match manifest.state with
    | .corrupt => .throw (artifactError .corrupt "The preview artifact is corrupt")
    | .writing | .deletePending => .throw (artifactError .notFound "Preview artifact is not ready")
    | .ready =>
      (verifyStoredPreview platform config manifest).tryCatch fun error =>
        if !isContentVerificationError error then .throw error
        else do
          markCorrupt manifest.artifactId error .ready
          .throw (artifactError .corrupt "Preview artifact content failed verification")

end Service

end AppBuilder.Artifacts
