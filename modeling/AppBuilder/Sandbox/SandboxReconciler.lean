import AppBuilder.Sandbox.SandboxService
import Mathlib.Data.List.Sort

/-! `SandboxReconciler.ts`: a pass over the leases and over the providers' resources. The counters
of its result are left out. -/
namespace AppBuilder.Sandbox
open Agent Async

variable (options : SandboxServiceOptions)

/-- A resource that the provider does not find is `none`. -/
def inspect (ref : SandboxRef) : SandboxPromise (Option SandboxInspection) :=
  (do
    let inspection : SandboxInspection ← perform (.inspect ref)
    return some inspection).tryCatch fun error =>
      if error.hasCode .notFound then return none else .throw error

/-- What there is to see of a resource that exists. -/
def present (inspection : Option SandboxInspection) : Option SandboxInspection :=
  inspection.filter fun i => i.status != .missing

def reservationExpired : LeaseError :=
  { code := .provisionFailed, message := "Sandbox reservation expired", retryable := true }

/-- The end of `reconcileProvisioning`. -/
def claimAndResume (leaseId : ObjectId) : SandboxPromise Unit := do
  let before : Option SandboxLease ← perform (.findLease leaseId)
  match before with
  | none => return ()
  | some before =>
    if before.state ≠ .provisioning then return ()
    else
      let claimedAt : Time ← perform .now
      let claimed : Option SandboxLease ←
        perform (.claimProvisioning leaseId before.updatedAt claimedAt)
      if claimed.isNone then return ()
      else
        let _ ← resumeProvisioning options leaseId
        return ()

/-- The order in which resources of one provisioning key are kept: the oldest first. -/
def keptBefore (left right : SandboxRef × SandboxInspection) : Bool :=
  left.2.createdAt < right.2.createdAt ||
    left.2.createdAt == right.2.createdAt &&
      options.localeCompare left.1.externalId right.1.externalId != .gt

/-- The resources that exist, with what was seen of them. -/
def inspectAll (refs : List SandboxRef) :
    SandboxPromise (List (SandboxRef × SandboxInspection)) :=
  Prog.foldEach (fun found ref => do
    let inspection ← inspect ref
    match present inspection with
    | some i => return found ++ [(ref, i)]
    | none => return found) [] refs

def destroyDuplicates (duplicates : List (SandboxRef × SandboxInspection)) : SandboxPromise Unit :=
  Prog.foldEach (fun _ duplicate => do
    let _ : SandboxDestroyReceipt ← perform (.destroy duplicate.1)
    return ()) () duplicates

/-- The resource to bind: the oldest one, or a new one. -/
def retain (lease : SandboxLease) (inspections : List (SandboxRef × SandboxInspection)) :
    SandboxPromise SandboxRef :=
  match inspections with
  | [] => perform (.create lease.provider lease.rebuiltSpec)
  | kept :: _ => return kept.1

/-- `bound?.externalId ?? (await findById(leaseId))?.externalId`. -/
def boundExternalId (bound : Option SandboxLease) (leaseId : ObjectId) :
    SandboxPromise (Option String) :=
  match bound.bind (·.externalId) with
  | some externalId => return some externalId
  | none => do
    let current : Option SandboxLease ← perform (.findLease leaseId)
    return current.bind (·.externalId)

/-- A lease without a resource gets the oldest one of its provisioning key, or a new one. -/
def rebind (lease : SandboxLease) : SandboxPromise Unit := do
  let refs : List SandboxRef ← perform (.list lease.provider
    { provisioningKey := some lease.provisioningKey, labels := lease.rebuiltSpec.labels })
  let found ← inspectAll refs
  let inspections := found.insertionSort fun left right => keptBefore options left right
  let retained ← retain lease inspections
  destroyDuplicates inspections.tail
  let bound : Option SandboxLease ← perform (.bindExternalId lease._id retained)
  let externalId ← boundExternalId bound lease._id
  if externalId.isNone then return () else claimAndResume options lease._id

def reconcileProvisioning (lease : SandboxLease) : SandboxPromise Unit :=
  if !options.kinds.contains lease.provider then return ()
  else match lease.ref? with
    | none => rebind options lease
    | some ref => do
      let inspection ← inspect ref
      if (present inspection).isNone then
        let cleared : Option SandboxLease ← perform (.clearExternalId lease._id ref)
        if cleared.isNone then return () else rebind options lease
      else claimAndResume options lease._id

/-- A ready or running lease whose resource is gone is lost. -/
def reconcileLive (lease : SandboxLease) : SandboxPromise Unit :=
  match lease.ref? with
  | none => return ()
  | some ref =>
    if !options.kinds.contains lease.provider then return ()
    else do
      let inspection ← inspect ref
      if (present inspection).isNone then
        let _ : Option SandboxLease ← transition lease._id [lease.state] .lost
        return ()
      else return ()

def reconcileLease (lease : SandboxLease) : SandboxPromise Unit := do
  let now : Time ← perform .now
  let expired := lease.expiresAt ≤ now
  let heartbeatCutoff : ℤ := now - options.config.heartbeatTimeoutMs
  let staleHeartbeat := lease.state = .running ∧
    lease.lastHeartbeatAt.any fun heartbeatAt => (heartbeatAt : ℤ) ≤ heartbeatCutoff
  if lease.state = .reserved ∧ expired then
    let _ : Option SandboxLease ←
      transition lease._id [.reserved] .failed { error := some reservationExpired }
    return ()
  else if expired ∧ lease.state ∈ [.provisioning, .ready, .running, .lost, .failed] then
    let _ ← terminate options lease._id lease.ownership
    return ()
  else if staleHeartbeat then
    match lease.ref? with
    | none => return ()
    | some ref =>
      let claimed : Option SandboxLease ←
        perform (.claimStaleRunning lease._id ref heartbeatCutoff)
      if claimed.isNone then return ()
      else
        let _ ← terminate options lease._id lease.ownership
        return ()
  else
    match lease.state with
    | .provisioning => reconcileProvisioning options lease
    | .ready | .running => reconcileLive options lease
    | .failed | .lost | .terminating => do
      let _ ← terminate options lease._id lease.ownership
      return ()
    | .reserved | .terminated => return ()

/-- `ObjectId.isValid`, on the texts that stand for identifiers. -/
def isValidObjectId (label : Option String) : Bool :=
  label.any fun s => s.toNat?.isSome

def validOwnershipLabels (labels : List (String × String)) : Bool :=
  labels.lookup "managed-by" == some "open-v0" &&
    isValidObjectId (labels.lookup "workspaceId") &&
    isValidObjectId (labels.lookup "projectId") &&
    isValidObjectId (labels.lookup "branchId") &&
    (labels.lookup "purpose" == some "build" || labels.lookup "purpose" == some "preview")

/-- Destroy a resource that is old enough, ours, and of no lease. -/
def reconcileOrphan (cutoff : ℤ) (ref : SandboxRef) : SandboxPromise Unit := do
  let inspection ← inspect ref
  match present inspection with
  | none => return ()
  | some inspection =>
    if (inspection.createdAt : ℤ) > cutoff ∨ !validOwnershipLabels inspection.labels then return ()
    else
      let lease : Option SandboxLease ← perform (.findByProviderRef ref)
      if lease.isSome then return ()
      else
        let _ : SandboxDestroyReceipt ← perform (.destroy ref)
        return ()

def reconcileOrphans (kind : String) : SandboxPromise Unit := do
  let refs : List SandboxRef ← perform (.list kind { labels := [("managed-by", "open-v0")] })
  let now : Time ← perform .now
  let cutoff : ℤ := now - options.config.orphanGraceMs
  Prog.foldEach (fun _ ref => reconcileOrphan cutoff ref) ()
    (refs.take SandboxWorld.SANDBOX_RECONCILER_BATCH_SIZE)

/-- Failures are counted, and the pass goes on. -/
def reconcile : SandboxPromise Unit := do
  let leases : List SandboxLease ← perform .scanLeases
  Prog.foldEach (fun _ lease => do
    let _ ← (reconcileLease options lease).attempt
    return ()) () leases
  Prog.foldEach (fun _ kind => do
    let _ ← (reconcileOrphans options kind).attempt
    return ()) () options.kinds

end AppBuilder.Sandbox
