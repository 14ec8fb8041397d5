import AppBuilder.Artifacts.ProjectBundle
import AppBuilder.Artifacts.PreviewBundle
import AppBuilder.Async.Machine
import AppBuilder.Sandbox.Types

/-! The manifests of artifacts, the blobs of the store, what refers to artifacts, and the operations
on them. -/
namespace AppBuilder.Artifacts
open Agent Async Encoding
open Sandbox (SandboxLeaseState)

inductive ArtifactKind where
  | projectSnapshot
  | validationCandidate
  | previewBuild
  deriving DecidableEq, Repr

inductive ArtifactManifestState where
  | writing
  | ready
  | corrupt
  | deletePending
  deriving DecidableEq, Repr

/-- A manifest without what the database adds. -/
structure ManifestDraft where
  artifactId : Text
  workspaceId : ObjectId
  projectId : ObjectId
  createdByRunId : ObjectId
  kind : ArtifactKind
  idempotencyKey : Text
  integrity : ArtifactIntegrity
  storageKey : Text
  state : ArtifactManifestState
  deriving DecidableEq, Repr

structure ArtifactManifest extends ManifestDraft where
  _id : ObjectId
  errorCode : Option ArtifactErrorCode
  updatedAt : Time
  deriving DecidableEq, Repr

def storageKeyFor (artifactId : Text) : Text :=
  text "v1/" ++ artifactId.take 2 ++ text "/" ++ (artifactId.drop 2).take 2 ++ text "/" ++
    artifactId ++ text ".json.gz"

/-- `cause` is the code of the error that an `ArtifactError` wraps; `duplicateKey` is the
database's error 11000; `other` is any error that is not an `ArtifactError`. -/
inductive ArtifactFailure where
  | artifact (error : ArtifactError) (cause : Option String)
  | duplicateKey
  | other
  deriving DecidableEq, Repr

def ArtifactFailure.hasCode (code : ArtifactErrorCode) : ArtifactFailure → Bool
  | .artifact error _ => error.code == code
  | .duplicateKey | .other => false

def artifactError (code : ArtifactErrorCode) (message : String) : ArtifactFailure :=
  .artifact { code, message } none

def alreadyExists : ArtifactFailure :=
  .artifact ⟨.writeFailed, "ARTIFACT_WRITE_FAILED: artifact already exists", false⟩ (some "EEXIST")

def doesNotExist : ArtifactFailure :=
  .artifact ⟨.notFound, "ARTIFACT_NOT_FOUND: artifact does not exist", false⟩ (some "ENOENT")

/-- The query of a `findOne`. -/
structure ManifestFilter where
  artifactId : Option Text := none
  idempotencyKey : Option Text := none
  owner : Option (ObjectId × ObjectId) := none
  kinds : Option (List ArtifactKind) := none
  deriving DecidableEq

def ManifestFilter.matches (filter : ManifestFilter) (manifest : ArtifactManifest) : Bool :=
  filter.artifactId.all (· == manifest.artifactId) &&
    filter.idempotencyKey.all (· == manifest.idempotencyKey) &&
    filter.owner.all (· == (manifest.workspaceId, manifest.projectId)) &&
    filter.kinds.all (·.contains manifest.kind)

/-- The updates of a manifest: `ready` also unsets `errorCode`. -/
inductive ManifestChange where
  | ready
  | corrupt (errorCode : ArtifactErrorCode)
  | moveTo (state : ArtifactManifestState)
  deriving DecidableEq

def ManifestChange.apply (change : ManifestChange) (now : Time) (manifest : ArtifactManifest) :
    ArtifactManifest :=
  match change with
  | .ready => { manifest with state := .ready, errorCode := none, updatedAt := now }
  | .corrupt code => { manifest with state := .corrupt, errorCode := some code, updatedAt := now }
  | .moveTo state => { manifest with state, updatedAt := now }

inductive ArtifactOp where
  | randomUUID
  | create (draft : ManifestDraft)
  | findOne (filter : ManifestFilter)
  | updateOne (artifactId : Text) (state : ArtifactManifestState) (change : ManifestChange)
  | deleteOne (artifactId : Text) (state : ArtifactManifestState)
  | scan (state : ArtifactManifestState) (cutoff : Option ℤ)
  | snapshotExists (artifactId : Text)
  | candidateExists (artifactId : Text)
  | leaseExists (artifactId : Text)
  | put (storageKey : Text) (bytes : List ℕ)
  | get (storageKey : Text)
  | stat (storageKey : Text)
  | delete (storageKey : Text)
  deriving DecidableEq

/-- An update and a deletion tell whether they found the manifest. -/
abbrev ArtifactOp.Reply : ArtifactOp → Type
  | .randomUUID => Text
  | .create _ => ArtifactManifest
  | .findOne _ => Option ArtifactManifest
  | .updateOne .. => Bool
  | .deleteOne .. => Bool
  | .scan .. => List ArtifactManifest
  | .snapshotExists _ => Bool
  | .candidateExists _ => Bool
  | .leaseExists _ => Bool
  | .put .. => Unit
  | .get _ => List ℕ
  | .stat _ => ℕ
  | .delete _ => Unit

abbrev artifactApi : Interface := ⟨ArtifactOp, ArtifactOp.Reply, ArtifactFailure⟩

/-- The fields of a snapshot that name artifacts. -/
structure SnapshotArtifacts where
  artifactId : Text
  previewArtifactId : Option Text
  deriving DecidableEq

structure ArtifactWorld where
  clock : Time
  nextId : ObjectId
  nextUuid : ℕ
  manifests : List ArtifactManifest
  blobs : Text → Option (List ℕ)
  snapshots : List SnapshotArtifacts
  candidates : List Text
  leases : List (Text × SandboxLeaseState)

def RECONCILER_BATCH_SIZE : ℕ := 100

/-- `randomUUID` without its dashes never gives the same text twice. -/
structure Uuids where
  uuid : ℕ → Text
  injective : ∀ m n, uuid m = uuid n → m = n

namespace ArtifactWorld

variable (w : ArtifactWorld)

def findOne (filter : ManifestFilter) : Option ArtifactManifest := w.manifests.find? filter.matches

/-- The manifest with this artifact id. -/
def manifest? (artifactId : Text) : Option ArtifactManifest :=
  w.manifests.find? fun manifest => manifest.artifactId == artifactId

def snapshotExists (artifactId : Text) : Bool :=
  w.snapshots.any fun snapshot =>
    snapshot.artifactId == artifactId || snapshot.previewArtifactId == some artifactId

def leaseExists (artifactId : Text) : Bool :=
  w.leases.any fun lease => lease.1 == artifactId && lease.2 != .terminated

/-- What `hasReference` looks for. -/
def Referenced (artifactId : Text) : Bool :=
  w.snapshotExists artifactId || w.candidates.contains artifactId || w.leaseExists artifactId

/-- The unique indexes refuse the draft. -/
def taken (draft : ManifestDraft) : Bool :=
  w.manifests.any fun manifest =>
    manifest.artifactId == draft.artifactId || manifest.idempotencyKey == draft.idempotencyKey

def updateOne (artifactId : Text) (state : ArtifactManifestState) (change : ManifestChange) :
    ArtifactWorld :=
  { w with
    manifests := w.manifests.map fun manifest =>
      if manifest.artifactId = artifactId ∧ manifest.state = state then change.apply w.clock manifest
      else manifest }

def deleteOne (artifactId : Text) (state : ArtifactManifestState) : ArtifactWorld :=
  { w with
    manifests := w.manifests.filter fun manifest =>
      ¬ (manifest.artifactId = artifactId ∧ manifest.state = state) }

def isIn (artifactId : Text) (state : ArtifactManifestState) : Bool :=
  w.manifests.any fun manifest => manifest.artifactId == artifactId && manifest.state == state

/-- The manifests in this state that were not updated after the cutoff. -/
def due (state : ArtifactManifestState) (cutoff : Option ℤ) (manifest : ArtifactManifest) : Bool :=
  manifest.state == state && cutoff.all fun cutoff => (manifest.updatedAt : ℤ) ≤ cutoff

/-- `find({ state, updatedAt }).sort({ _id: 1 }).limit(RECONCILER_BATCH_SIZE)` -/
def scan (state : ArtifactManifestState) (cutoff : Option ℤ) : List ArtifactManifest :=
  ((w.manifests.filter (due state cutoff)).insertionSort fun a b => a._id ≤ b._id).take
    RECONCILER_BATCH_SIZE

def create (draft : ManifestDraft) : ArtifactManifest :=
  { draft with _id := w.nextId, errorCode := none, updatedAt := w.clock }

def insert (draft : ManifestDraft) : ArtifactWorld :=
  { w with nextId := w.nextId + 1, manifests := w.manifests ++ [w.create draft] }

def setBlob (storageKey : Text) (blob : Option (List ℕ)) : ArtifactWorld :=
  { w with blobs := Function.update w.blobs storageKey blob }

def fetch (storageKey : Text) : Except ArtifactFailure (List ℕ) :=
  match w.blobs storageKey with
  | some bytes => .ok bytes
  | none => .error doesNotExist

/-- The store never replaces a blob, and does not mind when there is none to delete. -/
def exec (uuids : Uuids) (op : ArtifactOp) (w : ArtifactWorld) :
    artifactApi.Answer op × ArtifactWorld :=
  match op with
  | .randomUUID => (.ok (uuids.uuid w.nextUuid), { w with nextUuid := w.nextUuid + 1 })
  | .create draft =>
    if w.taken draft then (.error .duplicateKey, w) else (.ok (w.create draft), w.insert draft)
  | .findOne filter => (.ok (w.findOne filter), w)
  | .updateOne artifactId state change =>
    (.ok (w.isIn artifactId state), w.updateOne artifactId state change)
  | .deleteOne artifactId state => (.ok (w.isIn artifactId state), w.deleteOne artifactId state)
  | .scan state cutoff => (.ok (w.scan state cutoff), w)
  | .snapshotExists artifactId => (.ok (w.snapshotExists artifactId), w)
  | .candidateExists artifactId => (.ok (w.candidates.contains artifactId), w)
  | .leaseExists artifactId => (.ok (w.leaseExists artifactId), w)
  | .put storageKey bytes =>
    if (w.blobs storageKey).isSome then (.error alreadyExists, w)
    else (.ok (), w.setBlob storageKey bytes)
  | .get storageKey => (w.fetch storageKey, w)
  | .stat storageKey => ((w.fetch storageKey).map List.length, w)
  | .delete storageKey => (.ok (), w.setBlob storageKey none)

end ArtifactWorld

end AppBuilder.Artifacts
