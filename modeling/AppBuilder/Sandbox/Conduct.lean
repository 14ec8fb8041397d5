import AppBuilder.Async.History
import AppBuilder.Sandbox.LeaseTable
import AppBuilder.Sandbox.SandboxReconciler

/-! What a sandbox call has to have seen before it writes, and what can be answered to it. -/
namespace AppBuilder.Sandbox
open Agent Async
open SandboxWorld (lease?_id)

abbrev SandboxExchange := Exchange sandboxApi

abbrev SandboxHistory := History sandboxApi

/-- The lease of an answer that has at most one. -/
def leaseFound : Except Failure (Option SandboxLease) → List SandboxLease
  | .ok lease => lease.toList
  | .error _ => []

/-- The leases that an operation answers. -/
def leasesRead : SandboxExchange → List SandboxLease
  | ⟨.findLease _, r⟩ | ⟨.findByProvisioningKey _, r⟩ | ⟨.findByProviderRef _, r⟩
  | ⟨.transition .., r⟩ | ⟨.bindExternalId .., r⟩ | ⟨.clearExternalId .., r⟩
  | ⟨.claimProvisioning .., r⟩ | ⟨.heartbeatRunning .., r⟩ | ⟨.claimStaleRunning .., r⟩ =>
    leaseFound r
  | ⟨.createLease _, .ok lease⟩ => [lease]
  | ⟨.scanLeases, .ok leases⟩ => leases
  | _ => []

def Saw (h : SandboxHistory) (lease : SandboxLease) : Prop := ∃ x ∈ h, lease ∈ leasesRead x

theorem Saw.mono {h h' : SandboxHistory} {lease : SandboxLease} (hs : Saw h lease)
    (hsub : h <:+ h') : Saw h' lease :=
  have ⟨x, hx, hl⟩ := hs
  ⟨x, hsub.subset hx, hl⟩

theorem Saw.cons {h : SandboxHistory} {lease : SandboxLease} (hs : Saw h lease)
    (x : SandboxExchange) : Saw (x :: h) lease := hs.mono (List.suffix_cons x h)

/-- The files of the artifact that a lease was made for. -/
def SandboxLease.sourceFiles (directory : Directory) (lease : SandboxLease) : List SandboxFile :=
  uploadFiles (directory.artifact lease.sourceArtifact lease.workspaceId lease.projectId)

/-- What justifies destroying a resource. -/
inductive MayDestroy (key : SandboxRef → String) : SandboxHistory → SandboxRef → Prop
  | terminating {x h lease ref} (read : lease ∈ leasesRead x) (state : lease.state = .terminating)
    (bound : lease.ref? = some ref) : MayDestroy key (x :: h) ref
  | failedProvisioning {h r lease ref} (saw : Saw h lease) (bound : lease.ref? = some ref) :
    MayDestroy key (⟨.transition lease._id [.provisioning] .terminating
      { error := some provisionFailed }, .ok r⟩ :: h) ref
  | duplicate {h lease ref inspected} {r : sandboxApi.Answer (.inspect inspected)}
    (saw : Saw h lease) (hkey : key ref = lease.provisioningKey) :
    MayDestroy key (⟨.inspect inspected, r⟩ :: h) ref
  | orphan {h ref} : MayDestroy key (⟨.findByProviderRef ref, .ok none⟩ :: h) ref
  | again {h ref destroyed} {r : sandboxApi.Answer (.destroy destroyed)}
    (may : MayDestroy key h ref) : MayDestroy key (⟨.destroy destroyed, r⟩ :: h) ref

/-- What justifies the terminated state. -/
inductive MayTerminate : SandboxHistory → ObjectId → Prop
  | unbound {h lease} (saw : Saw h lease) (state : lease.state = .terminating)
    (bound : lease.ref? = none) : MayTerminate h lease._id
  | missing {h lease ref now inspection} (saw : Saw h lease) (state : lease.state = .terminating)
    (bound : lease.ref? = some ref) (status : SandboxInspection.status inspection = .missing) :
    MayTerminate (⟨.now, now⟩ :: ⟨.inspect ref, .ok inspection⟩ :: h) lease._id
  | destroyed {h lease ref now receipt} (saw : Saw h lease) (bound : lease.ref? = some ref)
    (pending : SandboxDestroyReceipt.pending receipt = false) :
    MayTerminate (⟨.now, now⟩ :: ⟨.destroy ref, .ok receipt⟩ :: h) lease._id

/-- What justifies the ready state. -/
inductive MayReady (directory : Directory) : SandboxHistory → ObjectId → Prop
  | hydrated {h lease ref a b} (saw : Saw h lease) (bound : lease.ref? = some ref) :
    MayReady directory (⟨.now, a⟩ :: ⟨.now, b⟩ ::
      ⟨.writeFiles ref (lease.sourceFiles directory), .ok ()⟩ :: h) lease._id

/-- The workspace whose lock is held. -/
def lockOf : SandboxHistory → Option ObjectId
  | [] => none
  | ⟨.lock workspaceId, .ok _⟩ :: _ => some workspaceId
  | ⟨.unlock _, _⟩ :: _ => none
  | _ :: h => lockOf h

/-- What justifies a new lease. -/
inductive MayCreate (directory : Directory) : SandboxHistory → SandboxReservationRecord → Prop
  | again {h record lease} (saw : Saw h lease)
    (hkey : lease.provisioningKey = record.provisioningKey) : MayCreate directory h record
  | counted {h record project workspace projectCount usage}
    (lock : lockOf h = some record.workspaceId)
    (hproject : directory.project record.projectId = some project)
    (hworkspace : directory.workspace record.workspaceId = some workspace)
    (owner : project.workspaceId = some record.workspaceId)
    (fits : exceedsQuota record project workspace.executionLimits projectCount usage = false) :
    MayCreate directory (⟨.findByProvisioningKey record.provisioningKey, .ok none⟩ ::
      ⟨.assertHeld record.workspaceId, .ok ()⟩ ::
      ⟨.workspaceUsage record.workspaceId, .ok usage⟩ ::
      ⟨.countProject record.projectId record.purpose, .ok projectCount⟩ :: h) record

/-- How far a command has come. -/
inductive CommandStage where
  | opened
  | beating
  | clear
  | ran (timedOut : Bool)
  | passed (timedOut : Bool)
  deriving DecidableEq

/-- The command that a history has opened, while nothing went wrong with it. -/
def commandOf : SandboxHistory → Option (ℕ × CommandStage)
  | [] => none
  | ⟨.openCommand .., .ok commandId⟩ :: _ => some (commandId, .opened)
  | ⟨.settleHeartbeat commandId false none, _⟩ :: h =>
    if commandOf h = some (commandId, .opened) then some (commandId, .beating) else none
  | ⟨.settleHeartbeat _ false (some _), _⟩ :: _ => none
  | ⟨.commandAborted commandId, .ok none⟩ :: h =>
    match commandOf h with
    | some (_, .beating) => some (commandId, .clear)
    | some (_, .ran timedOut) => some (commandId, .passed timedOut)
    | _ => none
  | ⟨.commandAborted _, _⟩ :: _ => none
  | ⟨.run commandId _ _, .ok result⟩ :: _ =>
    some (commandId, .ran (SandboxCommandResult.timedOut result))
  | ⟨.run .., .error _⟩ :: _ => none
  | _ :: h => commandOf h

variable (options : SandboxServiceOptions) (directory : Directory) (key : SandboxRef → String)

/-- What a call keeps to, given what it has seen. -/
def Conduct (h : SandboxHistory) : SandboxOp → Prop
  | .transition leaseId source target set =>
    SandboxOp.Allowed (.transition leaseId source target set) ∧
      (target = .ready → MayReady directory h leaseId) ∧
      (target = .terminated → MayTerminate h leaseId)
  | .bindExternalId leaseId ref =>
    ∃ lease, Saw h lease ∧ lease._id = leaseId ∧ key ref = lease.provisioningKey
  | .createLease record => MayCreate directory h record
  | .claimStaleRunning _ _ heartbeatCutoff =>
    ∃ now : Time, (⟨.now, .ok now⟩ : SandboxExchange) ∈ h ∧
      heartbeatCutoff = (now : ℤ) - options.config.heartbeatTimeoutMs
  | .destroy ref => MayDestroy key h ref
  | .settleHeartbeat commandId false _ => commandOf h = some (commandId, .opened)
  | .commandAborted commandId =>
    commandOf h = some (commandId, .beating) ∨ ∃ b, commandOf h = some (commandId, .ran b)
  | .run commandId _ _ => commandOf h = some (commandId, .clear)
  | _ => True

/-- An answer of the operation itself, or of an environment that fails it. -/
def Possible (op : SandboxOp) (r : sandboxApi.Answer op) : Prop :=
  (∃ (t : ThreadId) (w : SandboxWorld key), (w.exec directory t op).1 = r) ∨
    ∃ e, r = .error e ∧ op.mayFail e = true

abbrev conduct : Protocol sandboxApi SandboxHistory :=
  .ofHistory (Conduct options directory key) (Possible directory key)

end AppBuilder.Sandbox
