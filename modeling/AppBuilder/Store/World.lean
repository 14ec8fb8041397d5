import AppBuilder.Agent.StateMachine
import AppBuilder.Async.Machine
import AppBuilder.Store.Collection

/-! The documents of the database, the memory of the workers, and the clock. -/
namespace AppBuilder.Store
open Agent Async

def MAIN_BRANCH_NAME : String := "main"

structure AgentRun where
  _id : ObjectId
  userId : ObjectId
  workspaceId : Option ObjectId
  projectId : ObjectId
  branchId : Option ObjectId
  chatId : Option ObjectId
  prompt : String
  status : AgentRunStatus
  mode : AgentRunMode
  baseSnapshotId : Option ObjectId
  baseSnapshotRevision : ℕ
  baseHeadVersion : Option ℕ
  resultSnapshotId : Option ObjectId
  retryOfRunId : Option ObjectId
  validationCandidateId : Option ObjectId
  retryable : Bool
  attempt : ℕ
  maxRepairAttempts : ℕ
  error : Option AgentErrorPayload
  usage : Option ModelUsage
  startedAt : Option Time
  completedAt : Option Time
  deriving DecidableEq

structure AgentEvent where
  _id : ObjectId
  runId : ObjectId
  userId : ObjectId
  projectId : ObjectId
  type : AgentEventType
  sequence : ℕ
  message : String
  payload : Option EventPayload
  createdAt : Time
  deriving DecidableEq

/-- What is published and streamed of an event. -/
structure SerializedAgentEvent where
  id : ObjectId
  runId : ObjectId
  sequence : ℕ
  type : AgentEventType
  message : String
  payload : Option EventPayload
  createdAt : Time
  deriving DecidableEq

structure ProjectSnapshot where
  _id : ObjectId
  workspaceId : ObjectId
  branchId : ObjectId
  userId : ObjectId
  projectId : ObjectId
  sourceRunId : ObjectId
  parentSnapshotId : Option ObjectId
  artifactId : ObjectId
  previewArtifactId : Option ObjectId
  validation : ValidationResult
  summary : String
  deriving DecidableEq

structure ValidationCandidate where
  _id : ObjectId
  workspaceId : ObjectId
  branchId : ObjectId
  userId : ObjectId
  projectId : ObjectId
  sourceRunId : ObjectId
  artifactId : ObjectId
  summary : String
  expiresAt : Time
  deriving DecidableEq

inductive ArtifactKind where
  | projectSnapshot
  | validationCandidate
  | previewBuild
  deriving DecidableEq

structure ProjectArtifactBundle where
  files : List ProjectFile
  packageJson : ProjectSnapshotPackageJson
  deriving DecidableEq

/-- A ready manifest together with the content of its blob. -/
structure ArtifactManifest where
  _id : ObjectId
  workspaceId : ObjectId
  projectId : ObjectId
  createdByRunId : ObjectId
  kind : ArtifactKind
  idempotencyKey : String × ObjectId
  bundle : ProjectArtifactBundle
  deriving DecidableEq

def ArtifactManifest.fileCount (manifest : ArtifactManifest) : ℕ := manifest.bundle.files.length

inductive BranchStatus where
  | active
  | archived
  deriving DecidableEq

structure ProjectBranch where
  _id : ObjectId
  workspaceId : ObjectId
  projectId : ObjectId
  name : String
  status : BranchStatus
  headSnapshotId : Option ObjectId
  headVersion : ℕ
  createdFromSnapshotId : Option ObjectId
  deriving DecidableEq

structure Project where
  _id : ObjectId
  workspaceId : Option ObjectId
  userId : ObjectId
  name : String
  activeSnapshotId : Option ObjectId
  activeSnapshotRevision : ℕ
  deriving DecidableEq

structure Chat where
  _id : ObjectId
  userId : ObjectId
  projectId : Option ObjectId
  branchId : Option ObjectId
  messages : List String
  deriving DecidableEq

structure BranchExecutionLease where
  _id : ObjectId
  workspaceId : ObjectId
  projectId : ObjectId
  branchId : ObjectId
  runId : ObjectId
  baseHeadVersion : ℕ
  acquiredAt : Time
  heartbeatAt : Time
  expiresAt : Time
  deriving DecidableEq

/-- The closure variables of one `BranchExecutionGuard` in the memory of its worker.
`thread` is the execution that acquired it. -/
structure ExecutionGuard where
  _id : ObjectId
  thread : ThreadId
  leaseId : ObjectId
  runId : ObjectId
  branchId : ObjectId
  ttlMs : ℕ
  heartbeatOn : Bool
  lost : Bool
  renewing : Bool
  monitorClosed : Bool
  aborted : Bool
  deriving DecidableEq

inductive JobName where
  | agentRun
  | retryValidation
  | other (name : String)
  deriving DecidableEq

structure AgentRunJob where
  name : JobName
  runId : ObjectId
  candidateId : Option ObjectId
  deriving DecidableEq

/-- One change of a branch head: the thread that made it, and the run whose job that thread
executes. -/
structure HeadMove where
  thread : ThreadId
  run : Option ObjectId
  branchId : ObjectId
  headVersion : ℕ
  snapshotId : ObjectId
  deriving DecidableEq

instance : Document AgentRun := ⟨AgentRun._id⟩
instance : Document AgentEvent := ⟨AgentEvent._id⟩
instance : Document ProjectSnapshot := ⟨ProjectSnapshot._id⟩
instance : Document ValidationCandidate := ⟨ValidationCandidate._id⟩
instance : Document ArtifactManifest := ⟨ArtifactManifest._id⟩
instance : Document ProjectBranch := ⟨ProjectBranch._id⟩
instance : Document Project := ⟨Project._id⟩
instance : Document Chat := ⟨Chat._id⟩
instance : Document BranchExecutionLease := ⟨BranchExecutionLease._id⟩
instance : Document ExecutionGuard := ⟨ExecutionGuard._id⟩

@[simp] theorem docId_run (d : AgentRun) : docId d = d._id := rfl
@[simp] theorem docId_branch (d : ProjectBranch) : docId d = d._id := rfl
@[simp] theorem docId_project (d : Project) : docId d = d._id := rfl
@[simp] theorem docId_snapshot (d : ProjectSnapshot) : docId d = d._id := rfl
@[simp] theorem docId_lease (d : BranchExecutionLease) : docId d = d._id := rfl
@[simp] theorem docId_guard (d : ExecutionGuard) : docId d = d._id := rfl

/-- The last three fields are bookkeeping that no program reads: the changes of branch heads so
far, those of them whose thread has yet to update the project, and which thread stored a run's
final status without yet storing its final event. -/
structure World where
  runs : List AgentRun
  events : List AgentEvent
  snapshots : List ProjectSnapshot
  candidates : List ValidationCandidate
  manifests : List ArtifactManifest
  branches : List ProjectBranch
  projects : List Project
  members : List (ObjectId × ObjectId)
  chats : List Chat
  leases : List BranchExecutionLease
  guards : List ExecutionGuard
  jobs : List AgentRunJob
  clock : Time
  nextId : ObjectId
  headMoves : List HeadMove
  unmirrored : List HeadMove
  owing : List (ObjectId × ThreadId)

namespace World

def empty : World := ⟨[], [], [], [], [], [], [], [], [], [], [], [], 0, 1, [], [], []⟩

def run? (w : World) (r : ObjectId) : Option AgentRun := findById w.runs r

def branch? (w : World) (b : ObjectId) : Option ProjectBranch := findById w.branches b

def project? (w : World) (p : ObjectId) : Option Project := findById w.projects p

def guard? (w : World) (g : ObjectId) : Option ExecutionGuard := findById w.guards g

/-- The stored status of a run. -/
def status? (w : World) (r : ObjectId) : Option AgentRunStatus := (w.run? r).map (·.status)

/-- The event log of a run, in the order of insertion. -/
def log (w : World) (r : ObjectId) : List AgentEvent := w.events.filter fun e => e.runId == r

/-- `ProjectSnapshot` has a unique index on `sourceRunId`. -/
def snapshotOf? (w : World) (r : ObjectId) : Option ProjectSnapshot :=
  w.snapshots.find? fun s => s.sourceRunId == r

def mainBranch? (w : World) (p : ObjectId) : Option ProjectBranch :=
  w.branches.find? fun b => b.projectId == p && b.name == MAIN_BRANCH_NAME

/-- The thread that still owes the final event of a run. -/
def owing? (w : World) (r : ObjectId) : Option ThreadId := w.owing.lookup r

end World

/-- The `status` condition of a filter. -/
inductive StatusFilter where
  | equals (s : AgentRunStatus)
  | oneOf (l : List AgentRunStatus)
  | noneOf (l : List AgentRunStatus)
  deriving DecidableEq

def StatusFilter.accepts : StatusFilter → AgentRunStatus → Bool
  | .equals s, t => s == t
  | .oneOf l, t => l.contains t
  | .noneOf l, t => !l.contains t

/-- The fields of a `$set` on a run; a field that is `none` is left alone. -/
structure RunPatch where
  status : Option AgentRunStatus := none
  baseSnapshotId : Option ObjectId := none
  baseHeadVersion : Option ℕ := none
  baseSnapshotRevision : Option ℕ := none
  resultSnapshotId : Option ObjectId := none
  validationCandidateId : Option ObjectId := none
  retryable : Option Bool := none
  attempt : Option ℕ := none
  error : Option AgentErrorPayload := none
  usage : Option ModelUsage := none
  startedAt : Option Time := none
  completedAt : Option Time := none
  deriving DecidableEq

def RunPatch.apply (patch : RunPatch) (run : AgentRun) : AgentRun :=
  { run with
    status := patch.status.getD run.status
    baseSnapshotId := patch.baseSnapshotId.or run.baseSnapshotId
    baseHeadVersion := patch.baseHeadVersion.or run.baseHeadVersion
    baseSnapshotRevision := patch.baseSnapshotRevision.getD run.baseSnapshotRevision
    resultSnapshotId := patch.resultSnapshotId.or run.resultSnapshotId
    validationCandidateId := patch.validationCandidateId.or run.validationCandidateId
    retryable := patch.retryable.getD run.retryable
    attempt := patch.attempt.getD run.attempt
    error := patch.error.or run.error
    usage := patch.usage.or run.usage
    startedAt := patch.startedAt.or run.startedAt
    completedAt := patch.completedAt.or run.completedAt }

@[simp] theorem RunPatch.apply_id (patch : RunPatch) (run : AgentRun) :
    (patch.apply run)._id = run._id := rfl

@[simp] theorem RunPatch.apply_status (patch : RunPatch) (run : AgentRun) :
    (patch.apply run).status = patch.status.getD run.status := rfl

@[simp] theorem RunPatch.apply_branchId (patch : RunPatch) (run : AgentRun) :
    (patch.apply run).branchId = run.branchId := rfl

@[simp] theorem RunPatch.apply_projectId (patch : RunPatch) (run : AgentRun) :
    (patch.apply run).projectId = run.projectId := rfl

@[simp] theorem RunPatch.apply_userId (patch : RunPatch) (run : AgentRun) :
    (patch.apply run).userId = run.userId := rfl

@[simp] theorem RunPatch.apply_baseHeadVersion (patch : RunPatch) (run : AgentRun) :
    (patch.apply run).baseHeadVersion = patch.baseHeadVersion.or run.baseHeadVersion := rfl

end AppBuilder.Store
