import AppBuilder.Server.Machine

/-! What a call has learnt from the answers so far, and which operations this entitles it to. -/
namespace AppBuilder.Server
open Agent Async Store Branches Routes

/-- The fields of a run document that its holder relies on. All but the last never change. -/
structure RunRef where
  id : ObjectId
  userId : ObjectId
  projectId : ObjectId
  branchId : Option ObjectId
  baseHeadVersion : Option ℕ
  deriving DecidableEq

/-- The reference of a document in memory or in the database. -/
def refOf (run : AgentRun) : RunRef :=
  ⟨run._id, run.userId, run.projectId, run.branchId, run.baseHeadVersion⟩

/-- `owes` is the final event of a status that the call has stored, `mirror` the branch whose
head the call has moved without updating the project; `silent` and `stale` tell that an error
came in between. `repeats` is a final event for a status that was stored by another call. -/
structure Phase where
  call : Call
  guard : Option GuardHandle := none
  project : Option Project := none
  branch : Option ProjectBranch := none
  run : Option RunRef := none
  created : Option ObjectId := none
  snapshot : Option ObjectId := none
  outcome : Option CommitOutcome := none
  mirror : Option ProjectBranch := none
  owes : Option AgentEventType := none
  repeats : Option AgentEventType := none
  sawCancelled : Bool := false
  settled : Bool := false
  persisted : Bool := false
  refused : Bool := false
  orphaned : Bool := false
  silent : Bool := false
  stale : Bool := false
  crashed : Bool := false

namespace Phase

/-- After an error. -/
def fail (φ : Phase) : Phase :=
  { φ with silent := φ.silent || φ.owes.isSome, stale := φ.stale || φ.mirror.isSome }

def onStatus (φ : Phase) (status : Option AgentRunStatus) : Phase :=
  { φ with
    sawCancelled := φ.sawCancelled || status == some .cancelled
    settled := φ.settled || status.all isTerminalAgentRunStatus }

def onRun (φ : Phase) (site : ReadSite) (run : Option AgentRun) : Phase :=
  match site with
  | .createAgentJobProcessor => { φ with run := run.map refOf }
  | .processAgentRun => { φ with
      run := run.map refOf
      persisted := φ.persisted || run.any (·.status == .persisting)
      settled := φ.settled ||
        run.any fun run => run.status == .completed || run.status == .completedWithConflict }
  | .processValidationCandidate => { φ with
      run := run.map refOf
      settled := φ.settled || run.all (·.status != .queued) }
  | _ => φ

def onBranch (φ : Phase) (site : ReadSite) (branch : Option ProjectBranch) : Phase :=
  match site, branch with
  | .createAgentJobProcessor, branch => { φ with branch }
  | .commitBranchHead, some branch => { φ with
      outcome :=
        some (if branch.headSnapshotId == φ.snapshot then .alreadyAdvanced else .conflict) }
  | .completeRunWithSnapshot, branch =>
    if branch.any (·.name == MAIN_BRANCH_NAME) then φ else { φ with mirror := none }
  | _, _ => φ

def onUpdate (φ : Phase) (filter : StatusFilter) (patch : RunPatch) (modifiedCount : ℕ) : Phase :=
  match filter, patch.status with
  | .equals .waitingForCapacity, _ =>
    if modifiedCount = 1 ∨ patch.baseHeadVersion = none then φ else { φ with settled := true }
  | .equals .validating, some .persisting =>
    if modifiedCount = 1 then { φ with persisted := true } else φ
  | .equals .persisting, some .failed =>
    { φ with settled := true, orphaned := φ.orphaned || modifiedCount == 1 }
  | .equals .persisting, _ =>
    if modifiedCount = 1 then { φ with settled := true, owes := some .runCompleted }
    else { φ with stale := φ.stale || φ.mirror.isSome }
  | .noneOf statuses, _ =>
    if modifiedCount = 1 then { φ with settled := true, owes := some .runFailed }
    else { φ with
      settled := true
      repeats := if statuses = retrySettledStatuses then some .runFailed else φ.repeats }
  | _, _ => φ

/-- A rollback updates the project only for the main branch; a job finds out later. -/
def mirrors (φ : Phase) : Bool :=
  match φ.call with
  | .rollback _ => φ.branch.any (·.name == MAIN_BRANCH_NAME)
  | _ => true

def onCommit (φ : Phase) (input : SetBranchHead) (advanced : Option ProjectBranch) : Phase :=
  match advanced with
  | some branch => { φ with
      snapshot := some input.snapshotId
      outcome := some .advanced
      mirror := if φ.mirrors then some branch else none }
  | none => { φ with refused := true }

def next (φ : Phase) : (op : Op) → api.Answer op → Phase
  | .appendChat .., .error _ => φ
  | _, .error _ => φ.fail
  | .findRunStatus _, .ok status => φ.onStatus status
  | .guardAborted _, .ok aborted => { φ with sawCancelled := φ.sawCancelled || aborted }
  | .newGuard .., .ok guard => { φ with guard := some guard }
  | .findRun _ site, .ok run => φ.onRun site run
  | .findRetryableRun .., .ok run => { φ with run := run.map refOf }
  | .findOwnedProject .., .ok project => { φ with project }
  | .findActiveBranch .., .ok branch => { φ with branch }
  | .upsertMainBranch _, .ok branch => { φ with branch := some branch }
  | .findBranch _ site, .ok branch => φ.onBranch site branch
  | .createRun _, .ok run => { φ with created := some run._id }
  | .updateRun _ filter patch, .ok modifiedCount => φ.onUpdate filter patch modifiedCount
  | .cancelRun .., .ok run =>
    if run.isSome then { φ with repeats := some .runCancelled } else φ
  | .createEvent fields, .ok _ => if fields.type.isTerminal then { φ with owes := none } else φ
  | .eventExists .., .ok found => if found then φ else { φ with repeats := some .runCompleted }
  | .findSnapshot q, .ok snapshot =>
    if q.sourceRunId.isSome then { φ with snapshot := snapshot.map (·._id) } else φ
  | .upsertSnapshot _, .ok snapshot => { φ with snapshot := some snapshot._id }
  | .setBranchHead input, .ok advanced => φ.onCommit input advanced
  | .setActiveSnapshot .., .ok _ => { φ with mirror := none }
  | .advanceActiveSnapshot .., .ok _ => { φ with mirror := none }
  | _, .ok _ => φ

section Answers

-- The type of a reply depends on its operation, which the simp index would have to unfold.
variable (φ : Phase)

@[simp] theorem next_findRunStatus {id : ObjectId} (status : Option AgentRunStatus) :
    φ.next (.findRunStatus id) (no_index (.ok status)) = φ.onStatus status := rfl

@[simp] theorem next_findRun {id : ObjectId} {site : ReadSite} (run : Option AgentRun) :
    φ.next (.findRun id site) (no_index (.ok run)) = φ.onRun site run := rfl

@[simp] theorem next_findBranch {id : ObjectId} {site : ReadSite} (branch : Option ProjectBranch) :
    φ.next (.findBranch id site) (no_index (.ok branch)) = φ.onBranch site branch := rfl

@[simp] theorem next_updateRun {id : ObjectId} {filter : StatusFilter} {patch : RunPatch} (n : ℕ) :
    φ.next (.updateRun id filter patch) (no_index (.ok n)) = φ.onUpdate filter patch n := rfl

@[simp] theorem next_cancelRun {id userId : ObjectId} (run : Option AgentRun) :
    φ.next (.cancelRun id userId) (no_index (.ok run)) =
      if run.isSome then { φ with repeats := some .runCancelled } else φ := rfl

@[simp] theorem next_createEvent {fields : AgentEvent} (event : AgentEvent) :
    φ.next (.createEvent fields) (no_index (.ok event)) =
      if fields.type.isTerminal then { φ with owes := none } else φ := rfl

@[simp] theorem next_eventExists {id : ObjectId} {type : AgentEventType} (found : Bool) :
    φ.next (.eventExists id type) (no_index (.ok found)) =
      if found then φ else { φ with repeats := some .runCompleted } := rfl

@[simp] theorem next_findSnapshot {q : SnapshotQuery} (snapshot : Option ProjectSnapshot) :
    φ.next (.findSnapshot q) (no_index (.ok snapshot)) =
      if q.sourceRunId.isSome then { φ with snapshot := snapshot.map (·._id) } else φ := rfl

@[simp] theorem next_setBranchHead {input : SetBranchHead} (advanced : Option ProjectBranch) :
    φ.next (.setBranchHead input) (no_index (.ok advanced)) = φ.onCommit input advanced := rfl

@[simp] theorem next_advanceActiveSnapshot {p s : ObjectId} (project : Option Project) :
    φ.next (.advanceActiveSnapshot p s) (no_index (.ok project)) = { φ with mirror := none } := rfl

end Answers

end Phase

/-- Operations that neither touch what the invariants speak of nor teach the caller anything. -/
def quiet : Op → Bool
  | .findOwnedRun .. | .findActiveRetry .. | .findUnfinishedRetry .. | .latestSequence _
  | .publish .. | .writeBundle _ | .readOwnedBundle _ | .findManifest _ | .findCandidate _
  | .findRunCandidate _ | .upsertCandidate _ | .deleteCandidate _ | .findRunProject .. | .isMember ..
  | .findChat _ | .appendChat .. | .upsertLease .. | .setLeaseBase .. | .renewLease ..
  | .leaseHeld .. | .deleteLease .. | .guardLost _ | .setGuardLost .. | .beginRenewal _
  | .endRenewal _ | .monitorActive _ | .clearHeartbeat _ | .closeMonitor _ | .now
  | .moveToDelayed .. => true
  | _ => false

/-- The updates of a run by its job. -/
inductive Update (φ : Phase) (runId : ObjectId) : StatusFilter → RunPatch → Prop where
  | wait : Update φ runId (.oneOf [.queued, .waitingForCapacity])
      { status := some .waitingForCapacity }
  | rebase {run branch} (hrun : φ.run = some run) (hbranch : φ.branch = some branch)
      (hid : run.branchId = some branch._id) :
      Update φ runId (.equals .waitingForCapacity) (rebasePatch branch)
  | requeue : Update φ runId (.equals .waitingForCapacity) { status := some .queued }
  | work {source target patch} (hs : source = .queued ∨ source.isWorking = true)
      (ht : target.isWorking = true) (hstatus : patch.status = some target)
      (hbase : patch.baseHeadVersion = none) : Update φ runId (.equals source) patch
  | persist : Update φ runId (.equals .validating) { status := some .persisting }
  | complete {outcome patch} (hpersisted : φ.persisted = true)
      (houtcome : φ.outcome = some outcome)
      (hstatus : patch.status = some (completedStatus outcome))
      (hbase : patch.baseHeadVersion = none) : Update φ runId (.equals .persisting) patch
  | orphan {patch} (hpersisted : φ.persisted = true) (hstatus : patch.status = some .failed)
      (hbase : patch.baseHeadVersion = none) : Update φ runId (.equals .persisting) patch
  | failGeneration {patch} (hstatus : patch.status = some .failed)
      (hbase : patch.baseHeadVersion = none) :
      Update φ runId (.noneOf generationSettledStatuses) patch
  | failRetry {patch} (hstatus : patch.status = some .failed)
      (hbase : patch.baseHeadVersion = none) :
      Update φ runId (.noneOf retrySettledStatuses) patch

theorem Phase.onUpdate_work (φ : Phase) {source target : AgentRunStatus} {patch : RunPatch}
    (hs : source = .queued ∨ source.isWorking = true) (ht : target.isWorking = true)
    (hstatus : patch.status = some target) (n : ℕ) : φ.onUpdate (.equals source) patch n = φ := by
  rcases hs with rfl | hs
  · rfl
  · simp only [Phase.onUpdate, hstatus]
    cases source <;> cases target <;>
      first | rfl | exact absurd hs (by decide) | exact absurd ht (by decide)

inductive Permit (φ : Phase) : Op → Prop where
  | quiet {op} (h : quiet op = true) : Permit φ op
  | findRunStatus {r} (hr : φ.call.run? = some r) : Permit φ (.findRunStatus r)
  | findRun {r} (site) (hr : φ.call.run? = some r) : Permit φ (.findRun r site)
  | findRetryableRun (r userId) (hr : φ.call.run? = none) : Permit φ (.findRetryableRun r userId)
  | newGuard {r} (leaseId branchId ttlMs) (hr : φ.call.run? = some r) :
      Permit φ (.newGuard leaseId r branchId ttlMs)
  | guardAborted {guard} (hg : φ.guard = some guard) : Permit φ (.guardAborted guard.guardId)
  | abortGuard {guard} (hg : φ.guard = some guard) (hc : φ.sawCancelled = true) :
      Permit φ (.abortGuard guard.guardId)
  | findOwnedProject (p userId) (hm : φ.mirror = none) : Permit φ (.findOwnedProject p userId)
  | findActiveBranch {project} (b) (hp : φ.project = some project) (hm : φ.mirror = none) :
      Permit φ (.findActiveBranch b project.workspaceId project._id)
  | upsertMainBranch {project fields} (hp : φ.project = some project) (hm : φ.mirror = none)
      (hproject : fields.projectId = project._id) (hname : fields.name = MAIN_BRANCH_NAME)
      (hhead : fields.headSnapshotId = project.activeSnapshotId)
      (hversion : fields.headVersion = project.activeSnapshotRevision) :
      Permit φ (.upsertMainBranch fields)
  | findRunBranch {run b} (site) (hrun : φ.run = some run) (hb : run.branchId = some b)
      (hsite : site ≠ .commitBranchHead) : Permit φ (.findBranch b site)
  | explainCommit {run b s} (hrun : φ.run = some run) (hb : run.branchId = some b)
      (hs : φ.snapshot = some s) (href : φ.refused = true) (hm : φ.mirror = none) :
      Permit φ (.findBranch b .commitBranchHead)
  | createRun {project branch fields} (hp : φ.project = some project)
      (hb : φ.branch = some branch) (hstatus : fields.status = .queued)
      (hbranch : fields.branchId = some branch._id)
      (hbase : fields.baseHeadVersion = some branch.headVersion)
      (hproject : fields.projectId = project._id) (huser : fields.userId = project.userId) :
      Permit φ (.createRun fields)
  | retryRun {source fields} (hs : φ.run = some source) (hstatus : fields.status = .queued)
      (href : refOf fields = { source with id := fields._id }) : Permit φ (.createRun fields)
  | enqueue {job} (h : φ.created = some job.runId) : Permit φ (.enqueue job)
  | updateRun {r filter patch} (hr : φ.call.run? = some r) (h : Update φ r filter patch) :
      Permit φ (.updateRun r filter patch)
  | cancelRun {r} (userId) (hr : φ.call.run? = some r) : Permit φ (.cancelRun r userId)
  | createEvent {fields} (h : fields.type.isTerminal = false) : Permit φ (.createEvent fields)
  | finalEvent {fields} (hr : φ.call.run? = some fields.runId)
      (h : φ.owes = some fields.type ∨ φ.repeats = some fields.type) :
      Permit φ (.createEvent fields)
  | eventExists {r} (type) (hr : φ.call.run? = some r) (hs : φ.settled = true) :
      Permit φ (.eventExists r type)
  | findSnapshot {q} (h : q.sourceRunId = none) : Permit φ (.findSnapshot q)
  | findRunSnapshot {q r} (hr : φ.call.run? = some r) (h : q.sourceRunId = some r) :
      Permit φ (.findSnapshot q)
  | upsertSnapshot {fields} (hr : φ.call.run? = some fields.sourceRunId)
      (hp : φ.persisted = true) : Permit φ (.upsertSnapshot fields)
  | commit {run input} (hr : φ.call.run? = some run.id) (hp : φ.persisted = true)
      (hrun : φ.run = some run) (hb : run.branchId = some input.branchId)
      (hv : run.baseHeadVersion = some input.expectedHeadVersion)
      (hs : φ.snapshot = some input.snapshotId) (hm : φ.mirror = none) :
      Permit φ (.setBranchHead input)
  | rollback {req branch input} (hc : φ.call = .rollback req) (hb : φ.branch = some branch)
      (hid : branch._id = input.branchId) (hv : branch.headVersion = input.expectedHeadVersion)
      (hm : φ.mirror = none) : Permit φ (.setBranchHead input)
  | setActiveSnapshot {run branch s} (hm : φ.mirror = some branch) (hrun : φ.run = some run)
      (hs : φ.snapshot = some s) :
      Permit φ (.setActiveSnapshot run.projectId run.userId s branch.headVersion)
  | advanceActiveSnapshot {project branch s} (hm : φ.mirror = some branch)
      (hp : φ.project = some project) (hs : φ.snapshot = some s) :
      Permit φ (.advanceActiveSnapshot project._id s)

def protocol : Protocol api Phase := ⟨Permit, Op.Answered, Phase.next⟩

end AppBuilder.Server
