import AppBuilder.Async.Machine
import AppBuilder.Sandbox.Spec
import AppBuilder.Store.World
import Mathlib.Algebra.Ring.Rat

/-! What sandbox calls share: the leases, the providers, the commands that run, and the clock. -/
namespace AppBuilder.Sandbox
open Agent Async
open Store (Document docId findById modifyById ProjectArtifactBundle)

instance : Document SandboxLease := ⟨SandboxLease._id⟩

def OCCUPYING_SANDBOX_STATES : List SandboxLeaseState :=
  [.reserved, .provisioning, .ready, .running, .terminating]

def SandboxLease.Occupying (lease : SandboxLease) : Prop := lease.state ∈ OCCUPYING_SANDBOX_STATES

instance (lease : SandboxLease) : Decidable lease.Occupying := inferInstanceAs (Decidable (_ ∈ _))

/-- The resource that a lease is bound to. -/
def SandboxLease.ref? (lease : SandboxLease) : Option SandboxRef :=
  lease.externalId.map fun externalId => ⟨lease.provider, externalId⟩

/-- The validators of the schema; a required text is not empty. -/
def SandboxReservationRecord.valid (record : SandboxReservationRecord) : Bool :=
  record.sourceArtifact.artifactId ≠ "" && record.provider ≠ "" && record.provisioningKey ≠ "" &&
    record.spec.image ≠ "" && record.spec.workingDirectory ≠ "" &&
    isPositiveSafeInteger record.spec.leaseSeconds &&
    record.spec.autoStopSeconds.all isPositiveSafeInteger &&
    isPositiveSafeInteger record.spec.autoDeleteSeconds && 0 < record.resourceProfile.cpu &&
    isPositiveSafeInteger record.resourceProfile.memoryMiB &&
    isPositiveSafeInteger record.resourceProfile.diskMiB

/-- What the providers answer at some time. `key` tells for which provisioning key a resource was
created; `create` and `list` keep to it. -/
structure Providers (key : SandboxRef → String) where
  describe : String → SandboxCapabilities
  create : String → SandboxSpec → SandboxRef
  list : String → SandboxListFilter → List SandboxRef
  inspect : SandboxRef → Except Failure SandboxInspection
  destroy : SandboxRef → Except Failure SandboxDestroyReceipt
  fileExists : SandboxRef → String → Bool
  run : SandboxRef → SandboxCommand → SandboxCommandResult
  create_key : ∀ kind spec,
    (create kind spec).provider = kind ∧ key (create kind spec) = spec.provisioningKey
  list_key : ∀ kind filter, ∀ ref ∈ list kind filter,
    ref.provider = kind ∧ ∀ k, filter.provisioningKey = some k → key ref = k

/-- A command with its abort controller and its heartbeat loop. The last four fields remember
what happened: the command ran to its end, the last abort check let its result through, a refused
heartbeat was reported, and the first heartbeat was refused. -/
structure CommandRun where
  commandId : ℕ
  thread : ThreadId
  leaseId : ObjectId
  ref : SandboxRef
  signal : Option ℕ
  aborted : Option Failure
  inFlight : Bool
  closed : Bool
  ran : Bool
  passed : Bool
  reported : Bool
  firstRefused : Bool
  deriving DecidableEq

/-- The first reason to abort stays. -/
def CommandRun.abort (c : CommandRun) (reason : Failure) : CommandRun :=
  { c with aborted := c.aborted.or (some reason) }

/-- What a provider said of a resource, in the receipt of a `destroy` or in an inspection. -/
structure ProviderReport where
  ref : SandboxRef
  missing : Bool
  receipt : Bool
  deriving DecidableEq

/-- `signals` are the caller's signals that were aborted. `written` and `reports` remember what was
written into resources and what providers have said of them, newest first. -/
structure SandboxWorld (key : SandboxRef → String) where
  clock : Time
  nextId : ObjectId
  leases : List SandboxLease
  providers : Providers key
  locks : List (ObjectId × ThreadId)
  commands : List CommandRun
  signals : List (ℕ × Failure)
  written : List (ThreadId × SandboxRef × List SandboxFile)
  reports : List (ThreadId × ProviderReport)

structure ExecutionLimits where
  maxConcurrentBuilds : ℕ
  maxRunningPreviews : ℕ
  maxCpu : ℚ
  maxMemoryMiB : ℕ
  maxDiskMiB : ℕ
  maxLogBytesPerCommand : ℕ

structure WorkspaceDocument where
  active : Bool
  executionLimits : ExecutionLimits

structure ProjectDocument where
  workspaceId : Option ObjectId
  userId : ObjectId
  maxConcurrentBuilds : ℕ
  maxRunningPreviews : ℕ

structure BranchDocument where
  active : Bool
  workspaceId : ObjectId
  projectId : ObjectId

/-- The documents that sandbox calls only read, and the stored artifacts. -/
structure Directory where
  workspace : ObjectId → Option WorkspaceDocument
  project : ObjectId → Option ProjectDocument
  branch : ObjectId → Option BranchDocument
  member : ObjectId → ObjectId → Bool
  artifact : SourceArtifact → ObjectId → ObjectId → ProjectArtifactBundle

/-- The counts of a workspace. -/
structure WorkspaceUsage where
  builds : ℕ
  previews : ℕ
  cpu : ℚ
  memoryMiB : ℕ
  diskMiB : ℕ
  deriving DecidableEq

/-- The fields that a transition sets beside the state. -/
structure LeasePatch where
  readyAt : Option Time := none
  lastHeartbeatAt : Option Time := none
  terminatedAt : Option Time := none
  error : Option LeaseError := none
  deriving DecidableEq

def LeasePatch.apply (patch : LeasePatch) (lease : SandboxLease) : SandboxLease :=
  { lease with
    readyAt := patch.readyAt.or lease.readyAt
    lastHeartbeatAt := patch.lastHeartbeatAt.or lease.lastHeartbeatAt
    terminatedAt := patch.terminatedAt.or lease.terminatedAt
    error := patch.error.or lease.error }

inductive SandboxOp where
  | now
  -- the lease collection
  | findLease (leaseId : ObjectId)
  | findByProvisioningKey (key : String)
  | findByProviderRef (ref : SandboxRef)
  | scanLeases
  | createLease (record : SandboxReservationRecord)
  | transition (leaseId : ObjectId) (source : List SandboxLeaseState) (target : SandboxLeaseState)
      (set : LeasePatch)
  | bindExternalId (leaseId : ObjectId) (ref : SandboxRef)
  | clearExternalId (leaseId : ObjectId) (ref : SandboxRef)
  | claimProvisioning (leaseId : ObjectId) (expectedUpdatedAt claimedAt : Time)
  | heartbeatRunning (leaseId : ObjectId) (ref : SandboxRef) (heartbeatAt : Time)
  | claimStaleRunning (leaseId : ObjectId) (ref : SandboxRef) (heartbeatCutoff : ℤ)
  -- a reservation
  | lock (workspaceId : ObjectId)
  | assertHeld (workspaceId : ObjectId)
  | unlock (workspaceId : ObjectId)
  | findWorkspace (workspaceId : ObjectId)
  | findProject (projectId : ObjectId)
  | findBranch (branchId : ObjectId)
  | isMember (workspaceId userId : ObjectId)
  | branchBusy (branchId : ObjectId)
  | countProject (projectId : ObjectId) (purpose : SandboxPurpose)
  | workspaceUsage (workspaceId : ObjectId)
  -- artifacts and providers
  | readOwnedBundle (artifact : SourceArtifact) (workspaceId projectId : ObjectId)
  | describe (kind : String)
  | create (kind : String) (spec : SandboxSpec)
  | list (kind : String) (filter : SandboxListFilter)
  | connect (ref : SandboxRef)
  | waitUntilReady (ref : SandboxRef) (timeoutMs : ℕ)
  | writeFiles (ref : SandboxRef) (files : List SandboxFile)
  | fileExists (ref : SandboxRef) (path : String)
  | refreshActivity (ref : SandboxRef)
  | run (commandId : ℕ) (ref : SandboxRef) (command : SandboxCommand)
  | inspect (ref : SandboxRef)
  | destroy (ref : SandboxRef)
  -- the memory of a command
  | signalAborted (signal : Option ℕ)
  | openCommand (leaseId : ObjectId) (ref : SandboxRef) (signal : Option ℕ)
  | commandAborted (commandId : ℕ)
  | closeCommand (commandId : ℕ)
  | awaitHeartbeat (commandId : ℕ)
  | beginHeartbeat (commandId : ℕ)
  | settleHeartbeat (commandId : ℕ) (scheduled : Bool) (failure : Option Failure)
  deriving DecidableEq

def SandboxOp.Reply : SandboxOp → Type
  | .now => Time
  | .findLease _ | .findByProvisioningKey _ | .findByProviderRef _ | .transition ..
  | .bindExternalId .. | .clearExternalId .. | .claimProvisioning .. | .heartbeatRunning ..
  | .claimStaleRunning .. => Option SandboxLease
  | .scanLeases => List SandboxLease
  | .createLease _ => SandboxLease
  | .lock _ | .assertHeld _ | .unlock _ | .connect _ | .waitUntilReady .. | .writeFiles ..
  | .refreshActivity _ | .closeCommand _ | .awaitHeartbeat _ | .settleHeartbeat .. => Unit
  | .findWorkspace _ => Option WorkspaceDocument
  | .findProject _ => Option ProjectDocument
  | .findBranch _ => Option BranchDocument
  | .isMember .. | .branchBusy _ | .fileExists .. | .beginHeartbeat _ => Bool
  | .countProject .. | .openCommand .. => ℕ
  | .workspaceUsage _ => WorkspaceUsage
  | .readOwnedBundle .. => ProjectArtifactBundle
  | .describe _ => SandboxCapabilities
  | .create .. => SandboxRef
  | .list .. => List SandboxRef
  | .run .. => SandboxCommandResult
  | .inspect _ => SandboxInspection
  | .destroy _ => SandboxDestroyReceipt
  | .signalAborted _ | .commandAborted _ => Option Failure

abbrev sandboxApi : Interface := ⟨SandboxOp, SandboxOp.Reply, Failure⟩

abbrev SandboxPromise := Prog sandboxApi

def perform (op : SandboxOp) : SandboxPromise op.Reply := Prog.perform (I := sandboxApi) op

/-- The accesses that need neither the database nor a provider cannot fail. The lock is taken to be
exclusive, and is given back for certain. -/
def SandboxOp.inMemory : SandboxOp → Bool
  | .now | .unlock _ | .signalAborted _ | .openCommand .. | .commandAborted _ | .closeCommand _
  | .awaitHeartbeat _ | .beginHeartbeat _ | .settleHeartbeat .. => true
  | _ => false

/-- The database fails in its own ways, artifacts and providers in any. -/
def SandboxOp.mayFail (op : SandboxOp) (e : Failure) : Bool :=
  match op with
  | .lock _ | .assertHeld _ | .readOwnedBundle .. | .describe _ | .create .. | .list ..
  | .connect _ | .waitUntilReady .. | .writeFiles .. | .fileExists .. | .refreshActivity _
  | .run .. | .inspect _ | .destroy _ => true
  | op => !op.inMemory && e == .other

namespace SandboxWorld

variable {key : SandboxRef → String}

def lease? (w : SandboxWorld key) (leaseId : ObjectId) : Option SandboxLease :=
  findById w.leases leaseId

/-- The unique indexes of the collection: the provisioning key, the active build of a branch, and
the bound resource. -/
def collide (a b : SandboxLease) : Bool :=
  a.provisioningKey == b.provisioningKey ||
    (a.purpose == .build && b.purpose == .build && a.branchId == b.branchId && a.Occupying &&
      b.Occupying) ||
    (a.ref?.isSome && a.ref? == b.ref?)

/-- Store `lease`, unless a unique index refuses it. -/
def admits (w : SandboxWorld key) (lease : SandboxLease) : Bool :=
  w.leases.all fun other => other._id == lease._id || !collide other lease

/-- `findOneAndUpdate` with `new: true`; the filter asks for the `_id` and for `accepts`. -/
def updateLease (w : SandboxWorld key) (leaseId : ObjectId) (accepts : SandboxLease → Bool)
    (patch : SandboxLease → SandboxLease) :
    Except Failure (Option SandboxLease) × SandboxWorld key :=
  match w.lease? leaseId with
  | none => (.ok none, w)
  | some lease =>
    if accepts lease then
      let updated := { patch lease with updatedAt := w.clock }
      if w.admits updated then
        (.ok (some updated), { w with leases := modifyById w.leases leaseId fun _ => updated })
      else (.error .duplicateKey, w)
    else (.ok none, w)

def reservedLease (w : SandboxWorld key) (record : SandboxReservationRecord) : SandboxLease :=
  { record with
    _id := w.nextId
    externalId := none
    state := .reserved
    readyAt := none
    lastHeartbeatAt := none
    terminatedAt := none
    error := none
    updatedAt := w.clock }

def createLease (w : SandboxWorld key) (record : SandboxReservationRecord) :
    Except Failure SandboxLease × SandboxWorld key :=
  if !record.valid then (.error .other, w)
  else if w.admits (w.reservedLease record) then
    (.ok (w.reservedLease record),
      { w with leases := w.leases ++ [w.reservedLease record], nextId := w.nextId + 1 })
  else (.error .duplicateKey, w)

def SANDBOX_RECONCILER_BATCH_SIZE : ℕ := 100

/-- The unfinished leases, in the order of their `_id`. -/
def scanLeases (w : SandboxWorld key) : List SandboxLease :=
  (w.leases.filter fun lease => lease.state != .terminated).take SANDBOX_RECONCILER_BATCH_SIZE

def occupying (w : SandboxWorld key) : List SandboxLease :=
  w.leases.filter fun lease => lease.Occupying

def countProject (w : SandboxWorld key) (projectId : ObjectId) (purpose : SandboxPurpose) : ℕ :=
  w.occupying.countP fun lease => lease.projectId == projectId && lease.purpose == purpose

/-- `$group` over the occupying leases of the workspace. -/
def workspaceUsage (w : SandboxWorld key) (workspaceId : ObjectId) : WorkspaceUsage :=
  let leases := w.occupying.filter fun lease => lease.workspaceId == workspaceId
  { builds := leases.countP fun lease => lease.purpose == .build
    previews := leases.countP fun lease => lease.purpose == .preview
    cpu := (leases.map fun lease => lease.resourceProfile.cpu).sum
    memoryMiB := (leases.map fun lease => lease.resourceProfile.memoryMiB).sum
    diskMiB := (leases.map fun lease => lease.resourceProfile.diskMiB).sum }

def command? (w : SandboxWorld key) (commandId : ℕ) : Option CommandRun :=
  w.commands.find? fun command => command.commandId == commandId

def modifyCommand (w : SandboxWorld key) (commandId : ℕ) (f : CommandRun → CommandRun) :
    SandboxWorld key :=
  { w with commands := w.commands.map fun c => if c.commandId == commandId then f c else c }

def signal? (w : SandboxWorld key) (signal : Option ℕ) : Option Failure :=
  signal.bind fun s => (w.signals.find? fun entry => entry.1 == s).map (·.2)

/-- The report of a heartbeat whose lease was not found to be its own. -/
def heartbeatRefused : Failure :=
  .sandbox ⟨.lost, "Sandbox Lease heartbeat ownership was lost", false, none⟩

section Exec

variable (directory : Directory) (t : ThreadId)

/-- What the operation of thread `t` answers and stores. -/
def exec : (op : SandboxOp) → SandboxWorld key → sandboxApi.Answer op × SandboxWorld key
  | .now, w => (.ok w.clock, w)
  | .findLease leaseId, w => (.ok (w.lease? leaseId), w)
  | .findByProvisioningKey provisioningKey, w =>
    (.ok (w.leases.find? fun lease => lease.provisioningKey == provisioningKey), w)
  | .findByProviderRef ref, w => (.ok (w.leases.find? fun lease => lease.ref? == some ref), w)
  | .scanLeases, w => (.ok w.scanLeases, w)
  | .createLease record, w => w.createLease record
  | .transition leaseId source target set, w =>
    w.updateLease leaseId (fun lease => source.contains lease.state)
      fun lease => { set.apply lease with state := target }
  | .bindExternalId leaseId ref, w =>
    w.updateLease leaseId
      (fun lease => lease.state == .provisioning && lease.provider == ref.provider &&
        lease.externalId == none)
      fun lease => { lease with externalId := some ref.externalId }
  | .clearExternalId leaseId ref, w =>
    w.updateLease leaseId
      (fun lease => lease.state == .provisioning && lease.ref? == some ref)
      fun lease => { lease with externalId := none }
  | .claimProvisioning leaseId expectedUpdatedAt claimedAt, w =>
    w.updateLease leaseId
      (fun lease => lease.state == .provisioning && lease.updatedAt == expectedUpdatedAt)
      fun lease => { lease with lastHeartbeatAt := some claimedAt }
  | .heartbeatRunning leaseId ref heartbeatAt, w =>
    w.updateLease leaseId (fun lease => lease.state == .running && lease.ref? == some ref)
      fun lease => { lease with lastHeartbeatAt := some heartbeatAt }
  | .claimStaleRunning leaseId ref heartbeatCutoff, w =>
    w.updateLease leaseId
      (fun lease => lease.state == .running && lease.ref? == some ref &&
        lease.lastHeartbeatAt.any fun (heartbeatAt : Time) => (heartbeatAt : ℤ) ≤ heartbeatCutoff)
      fun lease => { lease with state := .terminating }
  | .lock workspaceId, w =>
    if w.locks.any fun lock => lock.1 == workspaceId then
      (.error (.sandbox ⟨.schedulerUnavailable, "Workspace quota lock timed out", true, none⟩), w)
    else (.ok (), { w with locks := (workspaceId, t) :: w.locks })
  | .assertHeld workspaceId, w =>
    if w.locks.contains (workspaceId, t) then (.ok (), w)
    else (.error (.sandbox ⟨.schedulerUnavailable, "Workspace quota lock was lost", true, none⟩), w)
  | .unlock workspaceId, w =>
    (.ok (), { w with locks := w.locks.filter fun lock => lock != (workspaceId, t) })
  | .findWorkspace workspaceId, w => (.ok (directory.workspace workspaceId), w)
  | .findProject projectId, w => (.ok (directory.project projectId), w)
  | .findBranch branchId, w => (.ok (directory.branch branchId), w)
  | .isMember workspaceId userId, w => (.ok (directory.member workspaceId userId), w)
  | .branchBusy branchId, w =>
    (.ok (w.occupying.any fun lease => lease.branchId == branchId && lease.purpose == .build), w)
  | .countProject projectId purpose, w => (.ok (w.countProject projectId purpose), w)
  | .workspaceUsage workspaceId, w => (.ok (w.workspaceUsage workspaceId), w)
  | .readOwnedBundle artifact workspaceId projectId, w =>
    (.ok (directory.artifact artifact workspaceId projectId), w)
  | .describe kind, w => (.ok (w.providers.describe kind), w)
  | .create kind spec, w => (.ok (w.providers.create kind spec), w)
  | .list kind filter, w => (.ok (w.providers.list kind filter), w)
  | .connect _, w | .waitUntilReady .., w | .refreshActivity _, w => (.ok (), w)
  | .writeFiles ref files, w => (.ok (), { w with written := (t, ref, files) :: w.written })
  | .fileExists ref path, w => (.ok (w.providers.fileExists ref path), w)
  | .run commandId ref command, w =>
    let result := w.providers.run ref command
    (.ok result, w.modifyCommand commandId fun c => { c with ran := !result.timedOut })
  | .inspect ref, w =>
    match w.providers.inspect ref with
    | .ok inspection =>
      (.ok inspection, { w with
        reports := (t, ⟨ref, inspection.status == .missing, false⟩) :: w.reports })
    | .error e => (.error e, w)
  | .destroy ref, w =>
    match w.providers.destroy ref with
    | .ok receipt =>
      (.ok receipt, { w with reports := (t, ⟨ref, receipt.missing, true⟩) :: w.reports })
    | .error e => (.error e, w)
  | .signalAborted signal, w => (.ok (w.signal? signal), w)
  | .openCommand leaseId ref signal, w =>
    -- the listener, the loop and its first heartbeat start at once
    (.ok w.commands.length, { w with commands := w.commands ++ [
      { commandId := w.commands.length, thread := t, leaseId, ref, signal,
        aborted := w.signal? signal, inFlight := true, closed := false, ran := false,
        passed := false, reported := false, firstRefused := false }] })
  | .commandAborted commandId, w =>
    (.ok ((w.command? commandId).bind (·.aborted)), w.modifyCommand commandId fun c =>
      { c with passed := c.ran && c.aborted.isNone })
  | .closeCommand commandId, w =>
    (.ok (), w.modifyCommand commandId fun c => { c with signal := none, closed := true })
  | .awaitHeartbeat _, w => (.ok (), w)
  | .beginHeartbeat commandId, w =>
    -- a tick joins the heartbeat that is in flight, whose own caller reports it
    let idle := (w.command? commandId).any fun c => !c.closed && !c.inFlight
    (.ok idle, if idle then w.modifyCommand commandId fun c => { c with inFlight := true } else w)
  | .settleHeartbeat commandId scheduled failure, w =>
    -- a scheduled heartbeat reports its failure to the abort controller, the first one is thrown
    (.ok (), w.modifyCommand commandId fun c =>
      match scheduled, failure with
      | _, none => { c with inFlight := false }
      | true, some e =>
        { c.abort e with inFlight := false, reported := c.reported || e == heartbeatRefused }
      | false, some e =>
        { c with inFlight := false, firstRefused := c.firstRefused || e == heartbeatRefused })

end Exec

end SandboxWorld

end AppBuilder.Sandbox
