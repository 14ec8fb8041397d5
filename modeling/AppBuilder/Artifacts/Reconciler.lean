import AppBuilder.Artifacts.ArtifactService
import Mathlib.Data.List.Sort

/-! `reconciler.ts`: a pass over the manifests. The counters of its result are left out. -/
namespace AppBuilder.Artifacts
open Agent Async Encoding

variable {N : Type} [DecidableEq N] (platform : Platform N) (config : ArtifactConfig)

def isStoreUnavailable (error : ArtifactFailure) : Bool := error.hasCode .storeUnavailable

/-- `reconcileWriting` for one manifest: a store that is unavailable changes nothing. -/
def reconcileWritten (manifest : ArtifactManifest) : ArtifactPromise Unit :=
  (do
    let size : ℕ ← performOp (.stat manifest.storageKey)
    if size ≠ manifest.integrity.compressedBytes then
      markCorrupt manifest.artifactId
        (artifactError .corrupt "Artifact compressed size does not match its manifest")
    else
      let _ ← verifyManifestBundle platform config manifest
      let _ : Bool ← performOp (.updateOne manifest.artifactId .writing .ready)
      return ()).tryCatch fun error =>
    if isStoreUnavailable error then return () else markCorrupt manifest.artifactId error

def reconcileWriting (cutoff : ℤ) : ArtifactPromise Unit := do
  let manifests : List ArtifactManifest ← performOp (.scan .writing (some cutoff))
  Prog.foldEach (fun _ manifest => reconcileWritten platform config manifest) () manifests

/-- The queries run side by side. -/
def hasReference (artifactId : Text) : ArtifactPromise Bool := do
  let snapshot : Bool ← performOp (.snapshotExists artifactId)
  let candidate : Bool ← performOp (.candidateExists artifactId)
  let lease : Bool ← performOp (.leaseExists artifactId)
  return snapshot || candidate || lease

def deletePendingManifest (manifest : ArtifactManifest) : ArtifactPromise Unit := do
  let referenced ← hasReference manifest.artifactId
  if referenced then
    let _ : Bool ← performOp (.updateOne manifest.artifactId .deletePending (.moveTo .ready))
    return ()
  else
    let deleted ← (do
      let _ : Unit ← performOp (.delete manifest.storageKey)
      return true).tryCatch fun error =>
        if isStoreUnavailable error then return false else .throw error
    if deleted then
      let _ : Bool ← performOp (.deleteOne manifest.artifactId .deletePending)
      return ()
    else return ()

/-- `reconcileReady` for one manifest. -/
def reconcileOrphan (manifest : ArtifactManifest) : ArtifactPromise Unit := do
  let referenced ← hasReference manifest.artifactId
  if referenced then return ()
  else
    let claimed : Bool ← performOp (.updateOne manifest.artifactId .ready (.moveTo .deletePending))
    if claimed then deletePendingManifest manifest else return ()

def reconcileReady (cutoff : ℤ) : ArtifactPromise Unit := do
  let manifests : List ArtifactManifest ← performOp (.scan .ready (some cutoff))
  Prog.foldEach (fun _ manifest => reconcileOrphan manifest) () manifests

def reconcileDeletePending : ArtifactPromise Unit := do
  let manifests : List ArtifactManifest ← performOp (.scan .deletePending none)
  Prog.foldEach (fun _ manifest => deletePendingManifest manifest) () manifests

def reconcileArtifacts (now : Time) : ArtifactPromise Unit := do
  reconcileWriting platform config ((now : ℤ) - config.writingTimeoutMs)
  reconcileDeletePending
  reconcileReady ((now : ℤ) - config.orphanRetentionMs)

end AppBuilder.Artifacts
