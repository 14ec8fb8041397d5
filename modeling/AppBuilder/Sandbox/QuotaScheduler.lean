import AppBuilder.Sandbox.SandboxRepository
import AppBuilder.Sandbox.WorkspaceQuotaLock

/-! `QuotaScheduler.ts`: a reservation under the workspace lock. -/
namespace AppBuilder.Sandbox
open Agent Async

def policyDenied {α : Type} (message : String) : SandboxPromise α :=
  .throw (.sandbox ⟨.policyDenied, message, false, none⟩)

def branchIsBusy {α : Type} : SandboxPromise α :=
  .throw (.sandbox ⟨.branchBusy, "Branch already has an active Build Sandbox", false, none⟩)

/-- `withLock` as a lock that one caller has at a time, and gives back in the end. -/
def withWorkspaceLock {α : Type} (workspaceId : ObjectId) (callback : SandboxPromise α) :
    SandboxPromise α := do
  let _ : Unit ← perform (.lock workspaceId)
  (callback.tryCatch fun error => .throw (asSandboxError error)).tryFinally
    (perform (.unlock workspaceId))

def assertRequestShape (request : SandboxReservationRecord) : SandboxPromise Unit :=
  if request.purpose = .build ∧ request.runId = none ∨ request.purpose = .preview ∧
      (request.snapshotId = none ∨ request.sourceArtifact.kind ≠ .projectSnapshot) then
    policyDenied "Sandbox reservation does not match its purpose"
  else return ()

/-- The scope check of `reserve`. -/
def accessible (request : SandboxReservationRecord) (workspace : Option WorkspaceDocument)
    (project : Option ProjectDocument) (branch : Option BranchDocument) (membership : Bool) :
    Option (WorkspaceDocument × ProjectDocument) :=
  match workspace, project, branch with
  | some workspace, some project, some branch =>
    if workspace.active ∧ project.workspaceId = some request.workspaceId ∧ branch.active ∧
        branch.workspaceId = request.workspaceId ∧ branch.projectId = request.projectId ∧
        (membership ∨ project.userId = request.requestedByUserId) then
      some (workspace, project)
    else none
  | _, _, _ => none

def projectLimit (project : ProjectDocument) : SandboxPurpose → ℕ
  | .build => project.maxConcurrentBuilds
  | .preview => project.maxRunningPreviews

def workspaceLimit (limits : ExecutionLimits) : SandboxPurpose → ℕ
  | .build => limits.maxConcurrentBuilds
  | .preview => limits.maxRunningPreviews

def WorkspaceUsage.count (usage : WorkspaceUsage) : SandboxPurpose → ℕ
  | .build => usage.builds
  | .preview => usage.previews

/-- One more lease of this kind would exceed the project's or the workspace's quota. -/
def exceedsQuota (request : SandboxReservationRecord) (project : ProjectDocument)
    (limits : ExecutionLimits) (projectCount : ℕ) (usage : WorkspaceUsage) : Bool :=
  projectCount + 1 > projectLimit project request.purpose ||
    usage.count request.purpose + 1 > workspaceLimit limits request.purpose ||
    usage.cpu + request.resourceProfile.cpu > limits.maxCpu ||
    usage.memoryMiB + request.resourceProfile.memoryMiB > limits.maxMemoryMiB ||
    usage.diskMiB + request.resourceProfile.diskMiB > limits.maxDiskMiB

/-- The lease is stored; another build of the branch makes the insertion fail. -/
def insertReservation (record : SandboxReservationRecord) : SandboxPromise SandboxLease := do
  let _ : Unit ← perform (.assertHeld record.workspaceId)
  (createReserved record).tryCatch fun error =>
    if error = .duplicateKey then branchIsBusy else .throw error

/-- Another build of the branch is under way. -/
def branchBusy (record : SandboxReservationRecord) : SandboxPromise Bool :=
  if record.purpose = .build then perform (.branchBusy record.branchId) else return false

def checkQuota (record : SandboxReservationRecord) (project : ProjectDocument)
    (limits : ExecutionLimits) : SandboxPromise SandboxLease := do
  let busy ← branchBusy record
  if busy then branchIsBusy
  else
    let projectCount : ℕ ← perform (.countProject record.projectId record.purpose)
    let usage : WorkspaceUsage ← perform (.workspaceUsage record.workspaceId)
    if exceedsQuota record project limits projectCount usage then
      .throw (.sandbox ⟨.quotaExceeded, "Sandbox reservation exceeds configured quota", false, none⟩)
    else insertReservation record

/-- What `reserve` does under the lock. `request` lacks the time at which it is reserved. -/
def reserveLocked (request : SandboxReservationRecord) : SandboxPromise SandboxLease := do
  assertRequestShape request
  let reservedAt : Time ← perform .now
  let record := { request with reservedAt }
  let workspace : Option WorkspaceDocument ← perform (.findWorkspace request.workspaceId)
  let project : Option ProjectDocument ← perform (.findProject request.projectId)
  let branch : Option BranchDocument ← perform (.findBranch request.branchId)
  let membership : Bool ← perform (.isMember request.workspaceId request.requestedByUserId)
  match accessible request workspace project branch membership with
  | none => policyDenied "Sandbox reservation scope is not accessible"
  | some (workspace, project) =>
    let existing : Option SandboxLease ←
      perform (.findByProvisioningKey request.provisioningKey)
    if existing.isSome then createReserved record
    else checkQuota record project workspace.executionLimits

def reserve (request : SandboxReservationRecord) : SandboxPromise SandboxLease :=
  withWorkspaceLock request.workspaceId (reserveLocked request)

end AppBuilder.Sandbox
