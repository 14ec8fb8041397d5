import AppBuilder.Agent.Orchestrator

/-! `agent/createWorker.ts`: what a worker does with a job, from the queue's delivery on. -/
namespace AppBuilder.Agent
open Async Store Branches

/-- `resolveModelClient` of `worker.ts` reads the run and turns its errors into a client. -/
structure AgentJobProcessorDependencies where
  content : ProjectContent
  modelClient : ModelClient
  resolveModelClient : Option (Except AgentError (Option AgentRun) → ModelClient)
  validator : ProjectValidator
  branchRetryDelayMs : Option ℕ

variable (dependencies : AgentJobProcessorDependencies)

def delayedError : AgentError := { code := .delayed, message := "DelayedError" }

def markRunWaiting (runId : ObjectId) : Promise Unit := do
  let _ ← perform (.updateRun runId (.oneOf [.queued, .waitingForCapacity])
    { status := some .waitingForCapacity })
  return ()

/-- Another run holds the branch: the job goes back to the queue. -/
def delayJob (job : AgentRunJob) : Promise Unit := do
  markRunWaiting job.runId
  let now ← perform .now
  perform (.moveToDelayed job.runId (now + dependencies.branchRetryDelayMs.getD 2000))
  .throw delayedError

/-- The update that gives a waiting run the current head of its branch as base. -/
def rebasePatch (branch : ProjectBranch) : RunPatch where
  status := some .queued
  baseSnapshotId := branch.headSnapshotId
  baseHeadVersion := some branch.headVersion
  baseSnapshotRevision := some branch.headVersion

def branchNotFoundError (runId : ObjectId) : AgentError :=
  { code := .none, message := "ProjectBranch not found for Run " ++ toString runId }

/-- Whether the job goes on. -/
def rebaseRun (runId : ObjectId) (execution : GuardHandle) : Promise Bool := do
  let waitingRun ← perform (.findRun runId .createAgentJobProcessor)
  let branch ← awaitSome (waitingRun.bind (·.branchId)) fun id =>
    perform (.findBranch id .createAgentJobProcessor)
  match branch with
  | none => do
    release execution
    .throw (branchNotFoundError runId)
  | some branch => do
    let modifiedCount ← perform
      (.updateRun runId (.equals .waitingForCapacity) (rebasePatch branch))
    if modifiedCount = 1 then do
      perform (.setLeaseBase branch._id runId branch.headVersion)
      return true
    else do
      release execution
      return false

/-- What happens to a run that waited before its job is processed. -/
def prepareRun (job : AgentRunJob) (initialStatus : AgentRunStatus) (execution : GuardHandle) :
    Promise Bool :=
  if initialStatus = .waitingForCapacity then
    if job.name = .agentRun then rebaseRun job.runId execution
    else do
      let _ ← perform (.updateRun job.runId (.equals .waitingForCapacity)
        { status := some .queued })
      return true
  else return true

def selectModelClient (runId : ObjectId) (initialStatus : AgentRunStatus) : Promise ModelClient :=
  match dependencies.resolveModelClient with
  | some resolveModelClient =>
    if initialStatus = .persisting then return dependencies.modelClient
    else do
      let run ← (perform (.findRun runId .resolveModelClient)).attempt
      return resolveModelClient run
  | none => return dependencies.modelClient

def processJob (job : AgentRunJob) (initialStatus : AgentRunStatus) (execution : GuardHandle) :
    Promise Unit :=
  if job.name = .retryValidation then
    processValidationCandidate job dependencies.validator (some execution)
  else do
    let modelClient ← selectModelClient dependencies job.runId initialStatus
    processAgentRun dependencies.content job modelClient dependencies.validator (some execution)

def executeJob (job : AgentRunJob) (initialStatus : AgentRunStatus) (execution : GuardHandle) :
    Promise Unit := do
  let ready ← prepareRun job initialStatus execution
  if ready then
    Prog.tryFinally (processJob dependencies job initialStatus execution) (release execution)
  else return ()

def deliverJob (job : AgentRunJob) : Promise Unit := do
  let initialStatus ← perform (.findRunStatus job.runId)
  match initialStatus with
  | none => return ()
  | some initialStatus =>
    if isTerminalAgentRunStatus initialStatus then return ()
    else do
      let execution ← acquireBranchExecution job.runId
      match execution with
      | none => delayJob dependencies job
      | some execution => executeJob dependencies job initialStatus execution

def createAgentJobProcessor (job : AgentRunJob) : Promise Unit :=
  match job.name with
  | .other name => .throw { code := .none, message := "Unsupported job name: " ++ name }
  | _ => deliverJob dependencies job

end AppBuilder.Agent
