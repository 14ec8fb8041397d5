import AppBuilder.Agent.EventBus
import AppBuilder.Branches.BranchService
import AppBuilder.Routes.Access

/-! `routes/agent.ts`: creating a run, retrying the validation of a failed one, cancelling. -/
namespace AppBuilder.Routes
open Agent Async Store Branches

/-- The request body, and what the configuration and the model catalog say to it. -/
structure CreateRunRequest where
  userId : ObjectId
  projectId : ObjectId
  chatId : Option ObjectId
  prompt : String
  mode : AgentRunMode
  maxRepairAttempts : Except AgentError ℕ

structure RunRequest where
  userId : ObjectId
  runId : ObjectId

/-- The document of a run that is created for a branch as it was read. -/
def newRun (req : CreateRunRequest) (project : Project) (branch : ProjectBranch)
    (baseSnapshot : Option ProjectSnapshot) (maxRepairAttempts : ℕ) : AgentRun where
  _id := 0
  userId := req.userId
  workspaceId := project.workspaceId
  projectId := req.projectId
  branchId := some branch._id
  chatId := req.chatId
  prompt := req.prompt
  status := .queued
  mode := req.mode
  baseSnapshotId := baseSnapshot.map (·._id)
  baseSnapshotRevision := branch.headVersion
  baseHeadVersion := some branch.headVersion
  resultSnapshotId := none
  retryOfRunId := none
  validationCandidateId := none
  retryable := false
  attempt := 0
  maxRepairAttempts := maxRepairAttempts
  error := none
  usage := none
  startedAt := none
  completedAt := none

/-- `chat.messages.push(..); await chat.save()` -/
def saveMessage (req : CreateRunRequest) (chat : Option Chat) : Promise Unit :=
  match chat with
  | some chat => perform
      (.appendChat { id := chat._id, userId := req.userId, projectId := req.projectId } req.prompt)
  | none => return ()

def startRun (req : CreateRunRequest) (project : Project) (chat : Option Chat)
    (branch : ProjectBranch) (baseSnapshot : Option ProjectSnapshot) (maxRepairAttempts : ℕ) :
    Promise HttpResponse := do
  let run ← perform (.createRun (newRun req project branch baseSnapshot maxRepairAttempts))
  saveMessage req chat
  let _ ← emitAgentEvent
    { runId := run._id, userId := req.userId, projectId := req.projectId, type := .runCreated
      message := "Agent run queued" }
  perform (.enqueue ⟨.agentRun, run._id, none⟩)
  return ⟨201, .run (some run)⟩

/-- From the branch on. -/
def createRunOn (req : CreateRunRequest) (project : Project) (chat : Option Chat)
    (branch : ProjectBranch) : Promise HttpResponse := do
  let baseSnapshot ← awaitSome branch.headSnapshotId fun id => perform (.findSnapshot
    { id := some id, projectId := some project._id, userId := some req.userId
      notFailed := true })
  if req.mode = .edit ∧ baseSnapshot.isNone then
    return errorResponse 400 "Edit mode requires an existing project snapshot"
  else match req.maxRepairAttempts with
    | .error e => .throw e
    | .ok maxRepairAttempts => startRun req project chat branch baseSnapshot maxRepairAttempts

/-- `POST /runs` -/
def createRun (req : CreateRunRequest) : Promise HttpResponse := do
  let project ← findOwnedWorkspaceProject req.projectId req.userId
  match project with
  | none => return errorResponse 404 "Project not found"
  | some project => do
    let chat ← awaitSome req.chatId fun id =>
      perform (.findChat { id, userId := req.userId, projectId := req.projectId })
    if req.chatId.isSome ∧ chat.isNone then return errorResponse 404 "Chat not found"
    else do
      let chatBranchId := chat.bind (·.branchId)
      let branch ← resolveProjectBranch project chatBranchId
      match branch with
      | none => return errorResponse 404 "Chat branch not found"
      | some branch =>
        if chatBranchId.all (branch._id == ·) then createRunOn req project chat branch
        else return errorResponse 404 "Chat branch not found"

/-- The document of a run that retries the validation of `source`. -/
def retryOf (source : AgentRun) (userId : ObjectId) (candidate : ValidationCandidate) :
    AgentRun where
  _id := 0
  userId := userId
  workspaceId := source.workspaceId
  projectId := source.projectId
  branchId := source.branchId
  chatId := source.chatId
  prompt := source.prompt
  status := .queued
  mode := source.mode
  baseSnapshotId := source.baseSnapshotId
  baseSnapshotRevision := source.baseSnapshotRevision
  baseHeadVersion := source.baseHeadVersion
  resultSnapshotId := none
  retryOfRunId := some source._id
  validationCandidateId := some candidate._id
  retryable := false
  attempt := 0
  maxRepairAttempts := source.maxRepairAttempts
  error := none
  usage := none
  startedAt := none
  completedAt := none

def startRetry (source : AgentRun) (userId : ObjectId) (candidate : ValidationCandidate) :
    Promise HttpResponse := do
  let created ← (perform (.createRun (retryOf source userId candidate))).attempt
  match created with
  | .error error =>
    if error.code = .duplicateKey then do
      let concurrent ← perform (.findUnfinishedRetry source._id userId)
      match concurrent with
      | none => .throw error
      | some concurrent => return ⟨200, .run (some concurrent)⟩
    else .throw error
  | .ok run => do
    let _ ← emitAgentEvent
      { runId := run._id, userId, projectId := run.projectId, type := .runCreated
        message := "Validation retry queued" }
    perform (.enqueue ⟨.retryValidation, run._id, some candidate._id⟩)
    return ⟨201, .run (some run)⟩

/-- From the source run on. -/
def retrySource (req : RunRequest) (source : AgentRun) (validationCandidateId : ObjectId) :
    Promise HttpResponse := do
  let project ← findOwnedWorkspaceProject source.projectId req.userId
  if project.isNone then return errorResponse 404 "Run not found"
  else do
    let now ← perform .now
    let candidate ← perform (.findCandidate
      { id := some validationCandidateId, userId := req.userId, workspaceId := source.workspaceId
        projectId := source.projectId, branchId := source.branchId
        sourceRunId := some source._id, aliveAt := some now })
    match candidate with
    | none => return errorResponse 409 "Validation candidate has expired"
    | some candidate => do
      let existing ← perform (.findActiveRetry source._id req.userId)
      match existing with
      | some existing => return ⟨200, .run (some existing)⟩
      | none => startRetry source req.userId candidate

/-- `POST /runs/:runId/retry-validation` -/
def retryValidation (req : RunRequest) : Promise HttpResponse := do
  let source ← perform (.findRetryableRun req.runId req.userId)
  match source.bind fun s => s.validationCandidateId.map fun id => (s, id) with
  | none => return errorResponse 409 "Run is not retryable"
  | some (source, validationCandidateId) => retrySource req source validationCandidateId

def finalizingResponse : HttpResponse :=
  errorResponse 409 "Run is finalizing and can no longer be cancelled"

/-- The answer after the update of the cancel route matched no run. -/
def explainRefusedCancel (req : RunRequest) : Promise HttpResponse := do
  let run ← perform (.findOwnedRun req.runId req.userId)
  if run.any (·.status == .persisting) then return finalizingResponse
  else return ⟨200, .run run⟩

def cancelActiveRun (req : RunRequest) : Promise HttpResponse := do
  let cancelled ← perform (.cancelRun req.runId req.userId)
  match cancelled with
  | none => explainRefusedCancel req
  | some run => do
    let _ ← emitAgentEvent
      { runId := req.runId, userId := req.userId, projectId := run.projectId
        type := .runCancelled, message := "Agent run cancelled" }
    return ⟨200, .run (some run)⟩

/-- `POST /runs/:runId/cancel` -/
def cancelRun (req : RunRequest) : Promise HttpResponse := do
  let run ← perform (.findOwnedRun req.runId req.userId)
  match run with
  | none => return errorResponse 404 "Run not found"
  | some run => do
    let project ← findOwnedWorkspaceProject run.projectId req.userId
    if project.isNone then return errorResponse 404 "Run not found"
    else if run.status = .persisting then return finalizingResponse
    else if isTerminalAgentRunStatus run.status then return ⟨200, .run (some run)⟩
    else cancelActiveRun req

end AppBuilder.Routes
