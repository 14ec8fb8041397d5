import AppBuilder.Agent.CreateWorker
import AppBuilder.Routes.Agent
import AppBuilder.Routes.Project

/-! The server: deliveries of queued jobs, requests and timers, interleaved, with failing
operations and crashes. -/
namespace AppBuilder.Server
open Agent Async Store Branches Routes

/-- A job may be delivered any number of times. The heartbeat and the monitor of a guard are
called by timers. -/
inductive Call where
  | deliver (job : AgentRunJob)
  | createRun (req : CreateRunRequest)
  | retryValidation (req : RunRequest)
  | cancelRun (req : RunRequest)
  | rollback (req : RollbackRequest)
  | heartbeat (guard : GuardHandle)
  | checkCancellation (guard : GuardHandle)

/-- `elapse` moves the clock that all processes share; the database removes expired leases and
candidates. -/
inductive Act where
  | elapse (ms : ℕ)
  | expireLease (leaseId : ObjectId)
  | expireCandidate (candidateId : ObjectId)

/-- The run that a call is about, where it is known from the start. -/
def Call.run? : Call → Option ObjectId
  | .deliver job => some job.runId
  | .cancelRun req => some req.runId
  | .heartbeat guard | .checkCancellation guard => some guard.runId
  | .createRun _ | .retryValidation _ | .rollback _ => none

def Call.spawnable : Call → World → Bool
  | .deliver job, w => w.jobs.contains job
  | .heartbeat guard, w | .checkCancellation guard, w =>
    (w.guard? guard.guardId).any fun g => g.handle == guard
  | .createRun _, _ | .retryValidation _, _ | .cancelRun _, _ | .rollback _, _ => true

def Act.apply : Act → World → Option World
  | .elapse ms, w => some { w with clock := w.clock + ms }
  | .expireLease leaseId, w =>
    if (findById w.leases leaseId).any fun l => l.expiresAt ≤ w.clock then
      some { w with leases := deleteById w.leases leaseId }
    else none
  | .expireCandidate candidateId, w =>
    if (findById w.candidates candidateId).any fun c => c.expiresAt ≤ w.clock then
      some { w with candidates := deleteById w.candidates candidateId }
    else none

/-- The timers of a guard end with its worker. -/
def stopTimers (t : ThreadId) (w : World) : World :=
  { w with guards := w.guards.map fun g =>
      if g.thread == t then { g with heartbeatOn := false, monitorClosed := true } else g }

variable (dependencies : AgentJobProcessorDependencies)

/-- A route answers a response; a job and a timer answer nothing. -/
def Call.body : Call → Promise (Option HttpResponse)
  | .deliver job => do createAgentJobProcessor dependencies job; return none
  | .createRun req => do let response ← Routes.createRun req; return some response
  | .retryValidation req => do let response ← Routes.retryValidation req; return some response
  | .cancelRun req => do let response ← Routes.cancelRun req; return some response
  | .rollback req => do let response ← Routes.rollback req; return some response
  | .heartbeat guard => do Branches.heartbeat guard; return none
  | .checkCancellation guard => do Branches.checkCancellation guard; return none

def server : Machine api World Call (Option HttpResponse) Act where
  exec t call op w := World.exec t call.run? op w
  body := Call.body dependencies
  fault := Op.mayFail
  spawnable := Call.spawnable
  act := Act.apply
  crashes := true
  onCrash := stopTimers

abbrev Running : Type := Config api World Call (Option HttpResponse)

abbrev Step : Type := Label api Call Act

/-- The database before the first run is created: any projects, branches, members and chats. -/
structure Initial (w : World) : Prop where
  runs : w.runs = []
  events : w.events = []
  snapshots : w.snapshots = []
  guards : w.guards = []
  jobs : w.jobs = []
  headMoves : w.headMoves = []
  unmirrored : w.unmirrored = []
  owing : w.owing = []
  branchIds : ∀ b ∈ w.branches, b._id < w.nextId

/-- A model, a validator and a project on which the witnesses below run. -/
def sampleDependencies : AgentJobProcessorDependencies where
  content :=
    { buildAgentContext := fun run project messages _ =>
        ⟨run.prompt, run.mode, project.name, messages, []⟩
      resolveProjectBaseFiles := fun files => files.getD []
      mergeProjectPackageJson := fun _ _ => ⟨[], [], []⟩
      applyFileOperations := fun files _ _ => .ok files
      stringifyPackageJson := fun _ => "{}"
      diagnosticFingerprint := fun _ => "" }
  modelClient :=
    { generatePlan := fun _ => .ok ⟨⟨"Plan", [], []⟩, none⟩
      generateFiles := fun _ _ => .ok ⟨⟨"Files", [], [], []⟩, none⟩
      repairFiles := fun _ => .ok ⟨⟨"Repair", [], [], []⟩, none⟩
      repairDependencies := none }
  resolveModelClient := none
  validator := ⟨fun _ => .finish ⟨.passed, none, none, [], none⟩⟩
  branchRetryDelayMs := none

/-- User `3` is a member of workspace `2`, which has project `1`. -/
def sampleWorld : World :=
  { World.empty with
    projects := [⟨1, some 2, 3, "Sample", none, 0⟩], members := [(2, 3)], nextId := 10 }

theorem sampleWorld_initial : Initial sampleWorld := by
  constructor <;> simp [sampleWorld, World.empty]

/-- Asks for a new run of the sample project. -/
def sampleRequest : CreateRunRequest := ⟨3, 1, none, "Make an app", .create, .ok 0⟩

end AppBuilder.Server
