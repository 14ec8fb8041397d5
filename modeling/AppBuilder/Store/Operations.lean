import AppBuilder.Async.Protocol
import AppBuilder.Store.World

/-! The awaited operations: one constructor for each database command, queue call or access to
worker memory, and what it does to the world in one atomic step. -/
namespace AppBuilder.Store
open Agent Async

/-- The function that issues a read, where several functions issue the same one. -/
inductive ReadSite where
  | acquireBranchExecution
  | createAgentJobProcessor
  | processAgentRun
  | processValidationCandidate
  | commitBranchHead
  | completeRunWithSnapshot
  | resolveModelClient
  deriving DecidableEq

/-- A condition that is `none` is not part of the filter. -/
structure SnapshotQuery where
  id : Option ObjectId := none
  sourceRunId : Option ObjectId := none
  workspaceId : Option ObjectId := none
  branchId : Option ObjectId := none
  projectId : Option ObjectId := none
  userId : Option ObjectId := none
  notFailed : Bool := false
  deriving DecidableEq

def SnapshotQuery.matches (q : SnapshotQuery) (s : ProjectSnapshot) : Bool :=
  q.id.all (· == s._id) && q.sourceRunId.all (· == s.sourceRunId) &&
    q.workspaceId.all (· == s.workspaceId) && q.branchId.all (· == s.branchId) &&
    q.projectId.all (· == s.projectId) && q.userId.all (· == s.userId) &&
    (!q.notFailed || s.validation.status != .failed)

structure CandidateQuery where
  id : Option ObjectId
  userId : ObjectId
  workspaceId : Option ObjectId
  projectId : ObjectId
  branchId : Option ObjectId
  sourceRunId : Option ObjectId
  /-- `expiresAt: { $gt: .. }` -/
  aliveAt : Option Time := none

def CandidateQuery.matches (q : CandidateQuery) (c : ValidationCandidate) : Bool :=
  q.id == some c._id && q.userId == c.userId && q.workspaceId == some c.workspaceId &&
    q.projectId == c.projectId && q.branchId == some c.branchId &&
    q.sourceRunId == some c.sourceRunId && q.aliveAt.all (· < c.expiresAt)

structure ManifestQuery where
  artifactId : ObjectId
  workspaceId : Option ObjectId
  projectId : ObjectId
  kind : ArtifactKind
  createdByRunId : Option ObjectId := none

def ManifestQuery.matches (q : ManifestQuery) (m : ArtifactManifest) : Bool :=
  q.artifactId == m._id && q.workspaceId == some m.workspaceId && q.projectId == m.projectId &&
    q.kind == m.kind && q.createdByRunId.all (· == m.createdByRunId)

structure ChatQuery where
  id : ObjectId
  userId : ObjectId
  projectId : ObjectId
  branchId : Option (Option ObjectId) := none

def ChatQuery.matches (q : ChatQuery) (c : Chat) : Bool :=
  q.id == c._id && q.userId == c.userId && c.projectId == some q.projectId &&
    q.branchId.all (· == c.branchId)

structure WriteBundle where
  workspaceId : ObjectId
  projectId : ObjectId
  createdByRunId : ObjectId
  kind : ArtifactKind
  idempotencyKey : String × ObjectId
  bundle : ProjectArtifactBundle

structure SetBranchHead where
  branchId : ObjectId
  expectedHeadVersion : ℕ
  snapshotId : ObjectId
  deriving DecidableEq

/-- What a guard's functions know of it: the rest is in worker memory. -/
structure GuardHandle where
  guardId : ObjectId
  leaseId : ObjectId
  runId : ObjectId
  branchId : ObjectId
  ttlMs : ℕ
  deriving DecidableEq

def ExecutionGuard.handle (g : ExecutionGuard) : GuardHandle :=
  ⟨g._id, g.leaseId, g.runId, g.branchId, g.ttlMs⟩

inductive Op where
  | findRun (id : ObjectId) (site : ReadSite)
  | findRunStatus (id : ObjectId)
  | findOwnedRun (id userId : ObjectId)
  | findRetryableRun (id userId : ObjectId)
  | findActiveRetry (sourceId userId : ObjectId)
  | findUnfinishedRetry (sourceId userId : ObjectId)
  | createRun (fields : AgentRun)
  | updateRun (id : ObjectId) (filter : StatusFilter) (patch : RunPatch)
  | cancelRun (id userId : ObjectId)
  | latestSequence (runId : ObjectId)
  | createEvent (fields : AgentEvent)
  | eventExists (runId : ObjectId) (type : AgentEventType)
  | publish (channel : ObjectId) (message : SerializedAgentEvent)
  | findSnapshot (query : SnapshotQuery)
  | upsertSnapshot (fields : ProjectSnapshot)
  | writeBundle (input : WriteBundle)
  | readOwnedBundle (query : ManifestQuery)
  | findManifest (query : ManifestQuery)
  | findCandidate (query : CandidateQuery)
  | findRunCandidate (sourceRunId : ObjectId)
  | upsertCandidate (fields : ValidationCandidate)
  | deleteCandidate (id : ObjectId)
  | findBranch (id : ObjectId) (site : ReadSite)
  | findActiveBranch (id : ObjectId) (workspaceId : Option ObjectId) (projectId : ObjectId)
  | upsertMainBranch (fields : ProjectBranch)
  | setBranchHead (input : SetBranchHead)
  | findOwnedProject (id userId : ObjectId)
  | findRunProject (id userId : ObjectId) (workspaceId : Option ObjectId)
  | isMember (workspaceId userId : ObjectId)
  | setActiveSnapshot (projectId userId snapshotId : ObjectId) (revision : ℕ)
  | advanceActiveSnapshot (projectId snapshotId : ObjectId)
  | findChat (query : ChatQuery)
  | appendChat (query : ChatQuery) (message : String)
  | upsertLease (fields : BranchExecutionLease) (now : Time)
  | setLeaseBase (branchId runId : ObjectId) (baseHeadVersion : ℕ)
  | renewLease (leaseId runId : ObjectId) (now : Time) (ttlMs : ℕ)
  | leaseHeld (leaseId runId : ObjectId) (now : Time)
  | deleteLease (leaseId runId : ObjectId)
  | newGuard (leaseId runId branchId : ObjectId) (ttlMs : ℕ)
  | guardAborted (guardId : ObjectId)
  | guardLost (guardId : ObjectId)
  | setGuardLost (guardId : ObjectId) (lost : Bool)
  | beginRenewal (guardId : ObjectId)
  | endRenewal (guardId : ObjectId)
  | monitorActive (guardId : ObjectId)
  | abortGuard (guardId : ObjectId)
  | clearHeartbeat (guardId : ObjectId)
  | closeMonitor (guardId : ObjectId)
  | now
  | moveToDelayed (runId : ObjectId) (time : Time)
  | enqueue (job : AgentRunJob)

/-- The event that an operation inserts. -/
def Op.inserted? : Op → Option AgentEvent
  | .createEvent fields => some fields
  | _ => none

/-- The guard whose `lost` an operation clears. -/
def Op.clearsLost? : Op → Option ObjectId
  | .setGuardLost guardId false => some guardId
  | _ => none

/-- Accesses to the memory and the clock of the worker itself. -/
def Op.inMemory : Op → Bool
  | .newGuard .. | .guardAborted _ | .guardLost _ | .setGuardLost .. | .beginRenewal _
  | .endRenewal _ | .monitorActive _ | .abortGuard _ | .clearHeartbeat _ | .closeMonitor _
  | .now => true
  | _ => false

/-- Of two concurrent upserts that both insert, one is rejected by the unique index. -/
def Op.isUpsert : Op → Bool
  | .upsertSnapshot _ | .upsertCandidate _ | .upsertMainBranch _ | .upsertLease .. => true
  | _ => false

def Op.isArtifactAccess : Op → Bool
  | .writeBundle _ | .readOwnedBundle _ => true
  | _ => false

def artifactErrorCodes : List ErrorCode :=
  [.artifactStoreUnavailable, .artifactWriteFailed, .artifactNotFound, .artifactCorrupt,
    .artifactFormatUnsupported, .artifactLimitExceeded, .artifactInvalidPath,
    .artifactInvalidBundle, .artifactIdempotencyConflict]

/-- The errors by which the environment may fail an operation. -/
def Op.mayFail (op : Op) (e : AgentError) : Bool :=
  !op.inMemory && (e.code == .storage || (op.isUpsert && e.code == .duplicateKey) ||
    (op.isArtifactAccess && artifactErrorCodes.contains e.code))

abbrev Op.Reply : Op → Type
  | .findRun .. => Option AgentRun
  | .findRunStatus _ => Option AgentRunStatus
  | .findOwnedRun .. => Option AgentRun
  | .findRetryableRun .. => Option AgentRun
  | .findActiveRetry .. => Option AgentRun
  | .findUnfinishedRetry .. => Option AgentRun
  | .createRun _ => AgentRun
  | .updateRun .. => ℕ
  | .cancelRun .. => Option AgentRun
  | .latestSequence _ => Option ℕ
  | .createEvent _ => AgentEvent
  | .eventExists .. => Bool
  | .publish .. => Unit
  | .findSnapshot _ => Option ProjectSnapshot
  | .upsertSnapshot _ => ProjectSnapshot
  | .writeBundle _ => ObjectId
  | .readOwnedBundle _ => ProjectArtifactBundle
  | .findManifest _ => Option ArtifactManifest
  | .findCandidate _ => Option ValidationCandidate
  | .findRunCandidate _ => Option ValidationCandidate
  | .upsertCandidate _ => ValidationCandidate
  | .deleteCandidate _ => Unit
  | .findBranch .. => Option ProjectBranch
  | .findActiveBranch .. => Option ProjectBranch
  | .upsertMainBranch _ => ProjectBranch
  | .setBranchHead _ => Option ProjectBranch
  | .findOwnedProject .. => Option Project
  | .findRunProject .. => Option Project
  | .isMember .. => Bool
  | .setActiveSnapshot .. => Unit
  | .advanceActiveSnapshot .. => Option Project
  | .findChat _ => Option Chat
  | .appendChat .. => Unit
  | .upsertLease .. => BranchExecutionLease
  | .setLeaseBase .. => Unit
  | .renewLease .. => ℕ
  | .leaseHeld .. => Bool
  | .deleteLease .. => Unit
  | .newGuard .. => GuardHandle
  | .guardAborted _ => Bool
  | .guardLost _ => Bool
  | .setGuardLost .. => Unit
  | .beginRenewal _ => Bool
  | .endRenewal _ => Unit
  | .monitorActive _ => Bool
  | .abortGuard _ => Unit
  | .clearHeartbeat _ => Unit
  | .closeMonitor _ => Unit
  | .now => Time
  | .moveToDelayed .. => Unit
  | .enqueue _ => Unit

abbrev api : Interface := ⟨Op, Op.Reply, AgentError⟩

abbrev Promise (α : Type) : Type := Prog api α

/-- `await` one operation. -/
abbrev perform (op : Op) : Promise op.Reply := Prog.perform (I := api) op

/-- `x ? await f(x) : null` -/
def awaitSome {α β : Type} (x : Option α) (f : α → Promise (Option β)) : Promise (Option β) :=
  match x with
  | some a => f a
  | none => return none

@[simp] theorem tracks_perform {Φ : Type} {P : Protocol api Φ} {X : AgentError → Φ → Prop}
    {op : Op} {Q : op.Reply → Φ → Prop} (φ : Φ) :
    Protocol.Tracks (α := no_index op.Reply) P (perform op) φ Q X ↔ P.permits φ op ∧
      (∀ v, P.possible op (.ok v) → Q v (P.next φ op (.ok v))) ∧
      ∀ e, P.possible op (.error e) → X e (P.next φ op (.error e)) :=
  Protocol.tracks_perform φ

def duplicateKeyError : AgentError := { code := .duplicateKey, message := "E11000" }

def nonTerminalStatuses : List AgentRunStatus :=
  [.waitingForCapacity, .queued, .running, .planning, .generating, .validating, .repairing,
    .persisting]

/-- The statuses from which the cancel route takes a run. -/
def cancellableStatuses : List AgentRunStatus :=
  [.waitingForCapacity, .queued, .running, .planning, .generating, .validating, .repairing]

/-- The final statuses that are announced by an event of the worker. -/
def announcedStatuses : List AgentRunStatus := [.completed, .completedWithConflict, .failed]

namespace World

/-- A `$set` on one run by thread `t`. -/
def patchRun (w : World) (t : ThreadId) (id : ObjectId) (patch : RunPatch) : World :=
  { w with
    runs := modifyById w.runs id patch.apply
    owing :=
      if patch.status.any announcedStatuses.contains then
        (id, t) :: w.owing.filter fun o => o.1 != id
      else w.owing }

/-- `AgentRun.updateOne` and its `modifiedCount`. -/
def updateRun (w : World) (t : ThreadId) (id : ObjectId) (filter : StatusFilter)
    (patch : RunPatch) : ℕ × World :=
  if (w.run? id).any fun run => filter.accepts run.status then (1, w.patchRun t id patch)
  else (0, w)

/-- `AgentRun.findOneAndUpdate` of the cancel route. -/
def cancelRun (w : World) (t : ThreadId) (id userId : ObjectId) : Option AgentRun × World :=
  if (w.run? id).any fun run => run.userId == userId && cancellableStatuses.contains run.status then
    let w' := w.patchRun t id { status := some .cancelled, completedAt := some w.clock }
    (w'.run? id, w')
  else (none, w)

def insertRun (w : World) (fields : AgentRun) : AgentRun × World :=
  let run := { fields with _id := w.nextId }
  (run, { w with runs := w.runs ++ [run], nextId := w.nextId + 1 })

/-- The partial unique index on `retryOfRunId` admits one active retry of a run. -/
def createRun (w : World) (fields : AgentRun) : Except AgentError AgentRun × World :=
  if fields.retryOfRunId.any fun source => w.runs.any fun run =>
      run.retryOfRunId == some source && nonTerminalStatuses.contains run.status then
    (.error duplicateKeyError, w)
  else (.ok (w.insertRun fields).1, (w.insertRun fields).2)

def latestSequence (w : World) (r : ObjectId) : Option ℕ :=
  ((w.log r).map (·.sequence)).max?

def insertEvent (w : World) (t : ThreadId) (fields : AgentEvent) : AgentEvent × World :=
  let event := { fields with _id := w.nextId, createdAt := w.clock }
  (event, { w with
    events := w.events ++ [event]
    nextId := w.nextId + 1
    owing :=
      if fields.type.isTerminal then w.owing.filter fun o => o != (fields.runId, t)
      else w.owing })

/-- The unique index on `(runId, sequence)` rejects a sequence that is taken. -/
def createEvent (w : World) (t : ThreadId) (fields : AgentEvent) :
    Except AgentError AgentEvent × World :=
  if (w.log fields.runId).any fun e => e.sequence == fields.sequence then
    (.error duplicateKeyError, w)
  else (.ok (w.insertEvent t fields).1, (w.insertEvent t fields).2)

def insertSnapshot (w : World) (fields : ProjectSnapshot) : ProjectSnapshot × World :=
  let snapshot := { fields with _id := w.nextId }
  (snapshot, { w with snapshots := w.snapshots ++ [snapshot], nextId := w.nextId + 1 })

def upsertSnapshot (w : World) (fields : ProjectSnapshot) : ProjectSnapshot × World :=
  match w.snapshotOf? fields.sourceRunId with
  | some snapshot => (snapshot, w)
  | none => w.insertSnapshot fields

/-- `ArtifactService.writeBundle`, taken as one step. -/
def writeBundle (w : World) (input : WriteBundle) : Except AgentError ObjectId × World :=
  match w.manifests.find? fun m => m.idempotencyKey == input.idempotencyKey with
  | some m =>
    if m.bundle == input.bundle then (.ok m._id, w)
    else (.error { code := .artifactIdempotencyConflict,
                   message := "The idempotency key already identifies different artifact content",
                   retryable := some false }, w)
  | none =>
    let m : ArtifactManifest := ⟨w.nextId, input.workspaceId, input.projectId,
      input.createdByRunId, input.kind, input.idempotencyKey, input.bundle⟩
    (.ok m._id, { w with manifests := w.manifests ++ [m], nextId := w.nextId + 1 })

def upsertCandidate (w : World) (fields : ValidationCandidate) : ValidationCandidate × World :=
  match w.candidates.find? fun c => c.sourceRunId == fields.sourceRunId with
  | some c => (c, w)
  | none =>
    let c := { fields with _id := w.nextId }
    (c, { w with candidates := w.candidates ++ [c], nextId := w.nextId + 1 })

def insertBranch (w : World) (fields : ProjectBranch) : ProjectBranch × World :=
  let branch := { fields with _id := w.nextId }
  (branch, { w with branches := w.branches ++ [branch], nextId := w.nextId + 1 })

def upsertMainBranch (w : World) (fields : ProjectBranch) : ProjectBranch × World :=
  match w.mainBranch? fields.projectId with
  | some branch => (branch, w)
  | none => w.insertBranch fields

/-- The `$set` and `$inc` of a new branch head. `run` is recorded with the move. -/
def moveHead (w : World) (t : ThreadId) (run : Option ObjectId) (input : SetBranchHead) : World :=
  let move : HeadMove :=
    ⟨t, run, input.branchId, input.expectedHeadVersion + 1, input.snapshotId⟩
  { w with
    branches := modifyById w.branches input.branchId fun b => { b with
      headSnapshotId := some input.snapshotId, headVersion := b.headVersion + 1 }
    headMoves := w.headMoves ++ [move]
    unmirrored :=
      if (w.branch? input.branchId).any (·.name == MAIN_BRANCH_NAME) then w.unmirrored ++ [move]
      else w.unmirrored }

/-- The compare-and-set of a branch head. -/
def setBranchHead (w : World) (t : ThreadId) (run : Option ObjectId) (input : SetBranchHead) :
    Option ProjectBranch × World :=
  if (w.branch? input.branchId).any fun b =>
      b.status == .active && b.headVersion == input.expectedHeadVersion then
    let w' := w.moveHead t run input
    (w'.branch? input.branchId, w')
  else (none, w)

/-- An update of the project's copy of the head by thread `t`. -/
def modifyProject (w : World) (t : ThreadId) (id : ObjectId) (f : Project → Project) : World :=
  { w with
    projects := modifyById w.projects id f
    unmirrored := w.unmirrored.filter fun move => move.thread != t }

/-- The update after a commit, with `$set`. -/
def setActiveSnapshot (w : World) (t : ThreadId) (projectId userId snapshotId : ObjectId)
    (revision : ℕ) : World :=
  w.modifyProject t projectId fun p =>
    if p.userId == userId then
      { p with activeSnapshotId := some snapshotId, activeSnapshotRevision := revision }
    else p

/-- The update of a rollback, with `$inc`. -/
def advanceActiveSnapshot (w : World) (t : ThreadId) (projectId snapshotId : ObjectId) : World :=
  w.modifyProject t projectId fun p =>
    { p with
      activeSnapshotId := some snapshotId, activeSnapshotRevision := p.activeSnapshotRevision + 1 }

def upsertLease (w : World) (fields : BranchExecutionLease) (now : Time) :
    Except AgentError BranchExecutionLease × World :=
  match w.leases.find? fun l =>
      l.branchId == fields.branchId && (l.runId == fields.runId || l.expiresAt ≤ now) with
  | some l =>
    (.ok { fields with _id := l._id },
      { w with leases := modifyById w.leases l._id fun l => { fields with _id := l._id } })
  | none =>
    if w.leases.any fun l => l.branchId == fields.branchId then (.error duplicateKeyError, w)
    else
      let l := { fields with _id := w.nextId }
      (.ok l, { w with leases := w.leases ++ [l], nextId := w.nextId + 1 })

/-- `modifiedCount` of the heartbeat: a matching lease counts when a field changes. -/
def renewLease (w : World) (leaseId runId : ObjectId) (now : Time) (ttlMs : ℕ) : ℕ × World :=
  match findById w.leases leaseId with
  | some l =>
    if l.runId == runId then
      (if l.heartbeatAt == now && l.expiresAt == now + ttlMs then 0 else 1,
        { w with leases := modifyById w.leases leaseId fun l =>
            { l with heartbeatAt := now, expiresAt := now + ttlMs } })
    else (0, w)
  | none => (0, w)

def leaseHeld (w : World) (leaseId runId : ObjectId) (now : Time) : Bool :=
  w.leases.any fun l => l._id == leaseId && l.runId == runId && now < l.expiresAt

def modifyGuard (w : World) (g : ObjectId) (f : ExecutionGuard → ExecutionGuard) : World :=
  { w with guards := modifyById w.guards g f }

/-- The answer of an operation that never rejects by itself. -/
def answer {α : Type} (r : α × World) : Except AgentError α × World := (.ok r.1, r.2)

/-- What one operation answers and does. `run` is the run whose job thread `t` executes. -/
def exec (t : ThreadId) (run : Option ObjectId) : (op : Op) → World → api.Answer op × World
  | .findRun id _, w => (.ok (w.run? id), w)
  | .findRunStatus id, w => (.ok (w.status? id), w)
  | .findOwnedRun id userId, w => (.ok ((w.run? id).filter (·.userId == userId)), w)
  | .findRetryableRun id userId, w =>
    (.ok ((w.run? id).filter fun r => r.userId == userId && r.status == .failed && r.retryable), w)
  | .findActiveRetry sourceId userId, w =>
    (.ok (w.runs.find? fun r => r.retryOfRunId == some sourceId && r.userId == userId &&
      nonTerminalStatuses.contains r.status), w)
  | .findUnfinishedRetry sourceId userId, w =>
    (.ok (w.runs.find? fun r => r.retryOfRunId == some sourceId && r.userId == userId &&
      r.completedAt.isNone), w)
  | .createRun fields, w => w.createRun fields
  | .updateRun id filter patch, w => answer (w.updateRun t id filter patch)
  | .cancelRun id userId, w => answer (w.cancelRun t id userId)
  | .latestSequence r, w => (.ok (w.latestSequence r), w)
  | .createEvent fields, w => w.createEvent t fields
  | .eventExists r type, w => (.ok ((w.log r).any (·.type == type)), w)
  | .publish _ _, w => (.ok (), w)
  | .findSnapshot q, w => (.ok (w.snapshots.find? q.matches), w)
  | .upsertSnapshot fields, w => answer (w.upsertSnapshot fields)
  | .writeBundle input, w => w.writeBundle input
  | .readOwnedBundle q, w =>
    (match w.manifests.find? q.matches with
      | some m => .ok m.bundle
      | none => .error { code := .artifactNotFound, message := "Artifact manifest not found",
                         retryable := some false }, w)
  | .findManifest q, w => (.ok (w.manifests.find? q.matches), w)
  | .findCandidate q, w => (.ok (w.candidates.find? q.matches), w)
  | .findRunCandidate r, w => (.ok (w.candidates.find? (·.sourceRunId == r)), w)
  | .upsertCandidate fields, w => answer (w.upsertCandidate fields)
  | .deleteCandidate id, w => (.ok (), { w with candidates := deleteById w.candidates id })
  | .findBranch id _, w => (.ok (w.branch? id), w)
  | .findActiveBranch id workspaceId projectId, w =>
    (.ok ((w.branch? id).filter fun b => some b.workspaceId == workspaceId &&
      b.projectId == projectId && b.status == .active), w)
  | .upsertMainBranch fields, w => answer (w.upsertMainBranch fields)
  | .setBranchHead input, w => answer (w.setBranchHead t run input)
  | .findOwnedProject id userId, w => (.ok ((w.project? id).filter (·.userId == userId)), w)
  | .findRunProject id userId workspaceId, w =>
    (.ok ((w.project? id).filter fun p => p.userId == userId && p.workspaceId == workspaceId), w)
  | .isMember workspaceId userId, w => (.ok (w.members.contains (workspaceId, userId)), w)
  | .setActiveSnapshot projectId userId snapshotId revision, w =>
    (.ok (), w.setActiveSnapshot t projectId userId snapshotId revision)
  | .advanceActiveSnapshot projectId snapshotId, w =>
    let w' := w.advanceActiveSnapshot t projectId snapshotId
    (.ok (w'.project? projectId), w')
  | .findChat q, w => (.ok (w.chats.find? q.matches), w)
  | .appendChat q message, w =>
    (.ok (), { w with chats := w.chats.map fun c =>
      if ChatQuery.matches q c then { c with messages := c.messages ++ [message] } else c })
  | .upsertLease fields now, w => w.upsertLease fields now
  | .setLeaseBase branchId runId version, w =>
    (.ok (), { w with leases := w.leases.map fun l =>
      if l.branchId == branchId && l.runId == runId then { l with baseHeadVersion := version }
      else l })
  | .renewLease leaseId runId now ttlMs, w => answer (w.renewLease leaseId runId now ttlMs)
  | .leaseHeld leaseId runId now, w => (.ok (w.leaseHeld leaseId runId now), w)
  | .deleteLease leaseId runId, w =>
    (.ok (), { w with leases := w.leases.filter fun l => !(l._id == leaseId && l.runId == runId) })
  | .newGuard leaseId runId branchId ttlMs, w =>
    (.ok ⟨w.nextId, leaseId, runId, branchId, ttlMs⟩, { w with
      guards := w.guards ++
        [⟨w.nextId, t, leaseId, runId, branchId, ttlMs, true, false, false, false, false⟩]
      nextId := w.nextId + 1 })
  | .guardAborted g, w => (.ok ((w.guard? g).any (·.aborted)), w)
  | .guardLost g, w => (.ok ((w.guard? g).any (·.lost)), w)
  | .setGuardLost g lost, w => (.ok (), w.modifyGuard g ({ · with lost }))
  | .beginRenewal g, w =>
    if (w.guard? g).any fun g => g.heartbeatOn && !g.renewing && !g.lost then
      (.ok true, w.modifyGuard g ({ · with renewing := true }))
    else (.ok false, w)
  | .endRenewal g, w => (.ok (), w.modifyGuard g ({ · with renewing := false }))
  | .monitorActive g, w => (.ok ((w.guard? g).any fun g => !g.monitorClosed && !g.aborted), w)
  | .abortGuard g, w => (.ok (), w.modifyGuard g ({ · with aborted := true }))
  | .clearHeartbeat g, w => (.ok (), w.modifyGuard g ({ · with heartbeatOn := false }))
  | .closeMonitor g, w => (.ok (), w.modifyGuard g ({ · with monitorClosed := true }))
  | .now, w => (.ok w.clock, w)
  | .moveToDelayed _ _, w => (.ok (), w)
  | .enqueue job, w => (.ok (), { w with jobs := w.jobs ++ [job] })

end World
end AppBuilder.Store
