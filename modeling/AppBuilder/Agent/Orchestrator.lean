import AppBuilder.Agent.EventBus
import AppBuilder.Agent.Generation
import AppBuilder.Branches.BranchService

/-! The job processors of `agent/orchestrator.ts`: status transitions, persistence of the result,
completion, recovery and failure of a run. -/
namespace AppBuilder.Agent
open Async Store Branches

/-- The codes that `publicAgentError` shows; every other error is `AGENT_RUN_FAILED`. -/
def publicErrorCodes : List ErrorCode :=
  [.projectNotFound, .invalidChatBranch, .branchExecutionLost, .invalidBaseSnapshot,
    .invalidModelOutput, .modelRequestFailed, .modelConfigurationError,
    .modelConfigurationMismatch, .modelNotAvailable, .noEffectiveChanges,
    .repeatedValidationFailure, .validationInfraError, .validationNotVerified, .validationFailed,
    .validationCandidateNotFound, .validationCandidateExpired, .artifactStoreUnavailable,
    .artifactWriteFailed, .artifactNotFound, .artifactCorrupt, .artifactFormatUnsupported,
    .artifactLimitExceeded, .artifactInvalidPath, .artifactInvalidBundle,
    .artifactIdempotencyConflict]

def publicAgentError (error : AgentError) : AgentErrorPayload :=
  if publicErrorCodes.contains error.code then ⟨error.code, error.message, error.details⟩
  else ⟨.agentRunFailed, "Agent run failed", error.details⟩

def statusChangedError (expectedStatus nextStatus : AgentRunStatus) : AgentError :=
  { code := .none
    message := "AgentRun status changed before transition: " ++ expectedStatus.name ++ " -> " ++
      nextStatus.name }

/-- Why a transition changed no document. -/
def explainRefusedTransition (runId : ObjectId) (expectedStatus nextStatus : AgentRunStatus) :
    Promise AgentRun := do
  let current ← perform (.findRunStatus runId)
  if current = some .cancelled then .throw runCancelledError
  else .throw (statusChangedError expectedStatus nextStatus)

/-- The result is the run document as the caller's memory has it afterwards. -/
def transitionRun (run : AgentRun) (expectedStatus nextStatus : AgentRunStatus)
    (fields : RunPatch := {}) : Promise AgentRun :=
  match assertAgentRunTransition expectedStatus nextStatus with
  | .error e => .throw e
  | .ok () => do
    let patch := { fields with status := some nextStatus }
    let modifiedCount ← perform (.updateRun run._id (.equals expectedStatus) patch)
    if modifiedCount = 1 then return patch.apply run
    else explainRefusedTransition run._id expectedStatus nextStatus

def invalidBranchBaselineError : AgentError :=
  { code := .invalidBranchBaseline, message := "AgentRun is missing Branch baseline" }

/-- The update of the project after its main branch was advanced. -/
def updateActiveSnapshot (run : AgentRun) (branchId snapshotId : ObjectId) (headVersion : ℕ) :
    Promise Unit := do
  let branch ← perform (.findBranch branchId .completeRunWithSnapshot)
  if branch.any (·.name == MAIN_BRANCH_NAME) then
    perform (.setActiveSnapshot run.projectId run.userId snapshotId headVersion)
  else return ()

def completedStatus (outcome : CommitOutcome) : AgentRunStatus :=
  if outcome = .conflict then .completedWithConflict else .completed

/-- `completeRunWithSnapshot` for a run with a branch baseline. -/
def completeOnBranch (run : AgentRun) (branchId : ObjectId) (baseHeadVersion : ℕ)
    (snapshotId : ObjectId) (fields : RunPatch) : Promise AgentRunStatus := do
  let committed ← commitBranchHead ⟨branchId, baseHeadVersion, snapshotId⟩
  let now ← perform .now
  let _ ← transitionRun run .persisting (completedStatus committed.outcome)
    { fields with resultSnapshotId := some snapshotId, completedAt := some now }
  if committed.outcome = .advanced then
    updateActiveSnapshot run branchId snapshotId committed.headVersion
  return completedStatus committed.outcome

def completeRunWithSnapshot (run : AgentRun) (snapshot : ProjectSnapshot)
    (fields : RunPatch := {}) : Promise AgentRunStatus :=
  match run.branchId, run.baseHeadVersion with
  | some branchId, some baseHeadVersion =>
    completeOnBranch run branchId baseHeadVersion snapshot._id fields
  | _, _ => .throw invalidBranchBaselineError

structure ArtifactScope where
  workspaceId : ObjectId
  projectId : ObjectId
  branchId : ObjectId
  userId : ObjectId
  deriving DecidableEq

def artifactConflict (message : String) : AgentError :=
  { code := .artifactIdempotencyConflict, message, retryable := some false }

/-- `owned` reads the artifact and the scope of a record. -/
def assertArtifactMatch {α : Type} (owned : α → ObjectId × ArtifactScope) (record : Option α)
    (artifactId : ObjectId) (scope : ArtifactScope) (kind : ArtifactKind) : Promise α :=
  match record with
  | none => .throw (artifactConflict "Domain record does not reference its idempotent artifact")
  | some record =>
    if owned record = (artifactId, scope) then do
      let manifest ← perform (.findManifest
        { artifactId, workspaceId := some scope.workspaceId, projectId := scope.projectId, kind })
      if manifest.isSome then return record
      else .throw (artifactConflict "Domain record does not reference an owned artifact manifest")
    else .throw (artifactConflict "Domain record does not reference its idempotent artifact")

def snapshotArtifact (s : ProjectSnapshot) : ObjectId × ArtifactScope :=
  (s.artifactId, ⟨s.workspaceId, s.projectId, s.branchId, s.userId⟩)

def candidateArtifact (c : ValidationCandidate) : ObjectId × ArtifactScope :=
  (c.artifactId, ⟨c.workspaceId, c.projectId, c.branchId, c.userId⟩)

def missingOwnershipError : AgentError :=
  { code := .none, message := "AgentRun is missing artifact ownership" }

structure RunSnapshotInput where
  parentSnapshotId : Option ObjectId
  files : List ProjectFile
  packageJson : ProjectSnapshotPackageJson
  validation : ValidationResult
  summary : String

/-- The upsert by source run, which reads the winner after losing to another execution. -/
def upsertRunSnapshot (fields : ProjectSnapshot) : Promise (Option ProjectSnapshot) :=
  Prog.tryCatch (do
      let snapshot ← perform (.upsertSnapshot fields)
      return some snapshot)
    fun error =>
      if error.code = .duplicateKey then
        perform (.findSnapshot { sourceRunId := some fields.sourceRunId })
      else .throw error

/-- A snapshot with a preview must own that preview. -/
def assertPreviewMatch (run : AgentRun) (workspaceId : ObjectId) (validation : ValidationResult)
    (owned : ProjectSnapshot) : Promise ProjectSnapshot :=
  match validation.previewArtifactId with
  | none => return owned
  | some previewArtifactId => do
    let previewManifest ← perform (.findManifest
      { artifactId := previewArtifactId, workspaceId := some workspaceId
        projectId := run.projectId, kind := .previewBuild, createdByRunId := some run._id })
    if previewManifest.isNone ∨ owned.previewArtifactId ≠ some previewArtifactId then
      .throw (artifactConflict "Snapshot does not reference its verified Preview Artifact")
    else return owned

def createOwnedSnapshot (run : AgentRun) (workspaceId branchId : ObjectId)
    (input : RunSnapshotInput) : Promise ProjectSnapshot := do
  let artifactId ← perform (.writeBundle
    { workspaceId, projectId := run.projectId, createdByRunId := run._id
      kind := .projectSnapshot, idempotencyKey := ("snapshot", run._id)
      bundle := ⟨input.files, input.packageJson⟩ })
  let snapshot ← upsertRunSnapshot
    { _id := 0, workspaceId, branchId, userId := run.userId, projectId := run.projectId
      sourceRunId := run._id, parentSnapshotId := input.parentSnapshotId, artifactId
      previewArtifactId := input.validation.previewArtifactId, validation := input.validation
      summary := input.summary }
  let owned ← assertArtifactMatch snapshotArtifact snapshot artifactId
    ⟨workspaceId, run.projectId, branchId, run.userId⟩ .projectSnapshot
  assertPreviewMatch run workspaceId input.validation owned

def createRunSnapshot (run : AgentRun) (input : RunSnapshotInput) : Promise ProjectSnapshot :=
  match run.workspaceId, run.branchId with
  | some workspaceId, some branchId => createOwnedSnapshot run workspaceId branchId input
  | _, _ => .throw missingOwnershipError

def upsertRunCandidate (fields : ValidationCandidate) : Promise (Option ValidationCandidate) :=
  Prog.tryCatch (do
      let candidate ← perform (.upsertCandidate fields)
      return some candidate)
    fun error =>
      if error.code = .duplicateKey then perform (.findRunCandidate fields.sourceRunId)
      else .throw error

def CANDIDATE_TTL_MS : ℕ := 24 * 60 * 60 * 1000

def createOwnedCandidate (run : AgentRun) (workspaceId branchId : ObjectId)
    (input : FailedCandidate) : Promise ValidationCandidate := do
  let artifactId ← perform (.writeBundle
    { workspaceId, projectId := run.projectId, createdByRunId := run._id
      kind := .validationCandidate, idempotencyKey := ("candidate", run._id)
      bundle := ⟨input.files, input.packageJson⟩ })
  let now ← perform .now
  let candidate ← upsertRunCandidate
    { _id := 0, workspaceId, branchId, userId := run.userId, projectId := run.projectId
      sourceRunId := run._id, artifactId, summary := input.summary
      expiresAt := now + CANDIDATE_TTL_MS }
  assertArtifactMatch candidateArtifact candidate artifactId
    ⟨workspaceId, run.projectId, branchId, run.userId⟩ .validationCandidate

def createRunCandidate (run : AgentRun) (input : FailedCandidate) : Promise ValidationCandidate :=
  match run.workspaceId, run.branchId with
  | some workspaceId, some branchId => createOwnedCandidate run workspaceId branchId input
  | _, _ => .throw missingOwnershipError

def findBaseSnapshot (run : AgentRun) : Promise (Option ProjectSnapshot) :=
  awaitSome run.baseSnapshotId fun id => perform (.findSnapshot
    { id := some id, projectId := some run.projectId, userId := some run.userId })

def readSnapshotBundle (snapshot : Option ProjectSnapshot) (workspaceId : ProjectSnapshot →
    Option ObjectId) (projectId : ProjectSnapshot → ObjectId) :
    Promise (Option ProjectArtifactBundle) :=
  awaitSome snapshot fun s => do
    let bundle ← perform (.readOwnedBundle
      { artifactId := s.artifactId, workspaceId := workspaceId s, projectId := projectId s
        kind := .projectSnapshot })
    return some bundle

/-- `loadAgentContext` of `agent/contextBuilder.ts`. -/
def loadAgentContext (content : ProjectContent) (run : AgentRun) : Promise AgentContext := do
  let project ← perform (.findRunProject run.projectId run.userId run.workspaceId)
  match project with
  | none => .throw { code := .projectNotFound, message := "Project not found" }
  | some project => do
    let chat ← awaitSome run.chatId fun id => perform (.findChat
      { id, userId := run.userId, projectId := run.projectId, branchId := some run.branchId })
    if run.chatId.isSome ∧ chat.isNone then
      .throw { code := .invalidChatBranch
               message := "Chat no longer belongs to the AgentRun branch" }
    else do
      let baseSnapshot ← findBaseSnapshot run
      if run.mode = .edit ∧ baseSnapshot.isNone then
        .throw { code := .invalidBaseSnapshot
                 message := "Edit mode requires a valid base snapshot" }
      else do
        let baseBundle ← readSnapshotBundle baseSnapshot (fun s => some s.workspaceId)
          fun s => s.projectId
        return content.buildAgentContext run project ((chat.map (·.messages)).getD [])
          (content.resolveProjectBaseFiles (baseBundle.map (·.files)))

/-- An event of the run in memory. -/
def runEvent (run : AgentRun) (type : AgentEventType) (message : String)
    (payload : Option EventPayload := none) : EmitAgentEventInput :=
  ⟨run._id, run.userId, run.projectId, type, message, payload⟩

/-- `run.completed` -/
def completionEvent (run : AgentRun) (snapshotId : ObjectId) (fileCount : ℕ)
    (status : AgentRunStatus) : EmitAgentEventInput :=
  runEvent run .runCompleted "Agent run completed with a project snapshot"
    (some (.completed snapshotId fileCount run.branchId (status == .completed)
      (status == .completedWithConflict)))

/-- `run.failed` -/
def failureEvent (run : AgentRun) (error : AgentErrorPayload) : EmitAgentEventInput :=
  runEvent run .runFailed error.message (some (.failure error.code))

/-- The transition that an event of the generation stands for. -/
def transitionOnEvent (run : AgentRun) (payload : Option EventPayload) : Promise AgentRun :=
  match payload with
  | some (.step .planning _) => transitionRun run .running .planning
  | some (.step .generating _) =>
    transitionRun run (if run.status = .planning then .planning else .repairing) .generating
  | some (.step .validating _) => transitionRun run .generating .validating
  | some (.step .repairing attempt) =>
    transitionRun run .validating .repairing { attempt := some (attempt.getD 0) }
  | _ => return run

def onWorkerEvent (run : AgentRun) (event : WorkerEvent) : Promise AgentRun := do
  let run ← transitionOnEvent run event.payload
  let _ ← emitAgentEvent (runEvent run event.type event.message event.payload)
  return run

def orphanedRunError : AgentErrorPayload :=
  ⟨.workspaceError, "Agent worker stopped before snapshot persistence completed", none⟩

/-- The recovery of a run that is found `persisting`. -/
def resumePersisting (run : AgentRun) : Promise Unit := do
  let pendingSnapshot ← perform (.findSnapshot
    { sourceRunId := some run._id, userId := some run.userId, projectId := some run.projectId })
  match pendingSnapshot with
  | none => do
    let now ← perform .now
    let _ ← perform (.updateRun run._id (.equals .persisting)
      { status := some .failed, error := some orphanedRunError, completedAt := some now })
    return ()
  | some snapshot => do
    let status ← completeRunWithSnapshot run snapshot
    let manifest ← perform (.findManifest
      { artifactId := snapshot.artifactId, workspaceId := run.workspaceId
        projectId := run.projectId, kind := .projectSnapshot })
    let _ ← emitAgentEvent (completionEvent run snapshot._id
      ((manifest.map (·.fileCount)).getD 0) status)
    return ()

/-- The recovery of a completed run that has no completion event. -/
def announceCompleted (run : AgentRun) (snapshotId : ObjectId) : Promise Unit := do
  let snapshot ← perform (.findSnapshot { id := some snapshotId })
  let manifest ← awaitSome snapshot fun s => perform (.findManifest
    { artifactId := s.artifactId, workspaceId := run.workspaceId
      projectId := run.projectId, kind := .projectSnapshot })
  let _ ← emitAgentEvent (completionEvent run snapshotId
    ((manifest.map (·.fileCount)).getD 0) run.status)
  return ()

def resumeCompleted (run : AgentRun) : Promise Unit := do
  let completedEvent ← perform (.eventExists run._id .runCompleted)
  match completedEvent, run.resultSnapshotId with
  | false, some snapshotId => announceCompleted run snapshotId
  | _, _ => return ()

/-- The assistant's message; a failure to store it is only logged. -/
def appendSummary (run : AgentRun) (summary : String) (snapshotId : ObjectId) : Promise Unit :=
  match run.chatId with
  | none => return ()
  | some id => Prog.tryCatch
      (perform (.appendChat { id, userId := run.userId, projectId := run.projectId }
        (summary ++ "\n\nSnapshot: " ++ toString snapshotId)))
      fun _ => return ()

def completionEventFailedError : AgentError :=
  { code := .completionEventFailed, message := "Failed to persist run completion event" }

/-- `execution?.assertHeld()` -/
def assertExecutionHeld (execution : Option GuardHandle) : Promise Unit :=
  match execution with
  | some guard => assertHeld guard
  | none => return ()

def sandboxScope (run : AgentRun) : SandboxScope :=
  ⟨run.workspaceId, run.projectId, run.branchId, run.userId, run._id, 0⟩

/-- From the switch to `persisting` to the completion event. -/
def persistGeneration (run : AgentRun) (parentSnapshotId : Option ObjectId)
    (generation : ValidatedAgentGenerationResult) : Promise Unit := do
  let run ← transitionRun run .validating .persisting
  let snapshot ← createRunSnapshot run
    ⟨parentSnapshotId, generation.files, generation.packageJson, generation.validation,
      generation.summary⟩
  let status ← completeRunWithSnapshot run snapshot { usage := generation.usage }
  appendSummary run generation.summary snapshot._id
  Prog.tryCatch (do
      let _ ← emitAgentEvent
        (completionEvent run snapshot._id generation.files.length status)
      return ())
    fun _ => .throw completionEventFailedError

/-- The body of the `try` of `processAgentRun`. -/
def generateRun (content : ProjectContent) (run : AgentRun) (modelClient : ModelClient)
    (validator : ProjectValidator) (execution : Option GuardHandle) : Promise Unit := do
  let now ← perform .now
  let run ← transitionRun run .queued .running { startedAt := some now }
  let _ ← emitAgentEvent (runEvent run .runStarted "Agent run started")
  let context ← loadAgentContext content run
  let baseSnapshot ← findBaseSnapshot run
  let baseBundle ← readSnapshotBundle baseSnapshot (fun _ => run.workspaceId)
    fun _ => run.projectId
  let (generation, run) ← runAgentGenerationWithValidation
    { content, context
      baseFiles := content.resolveProjectBaseFiles (baseBundle.map (·.files))
      basePackageJson := baseBundle.map (·.packageJson)
      generatedByRunId := some run._id
      modelClient
      onEvent := onWorkerEvent
      validator
      runId := run._id
      signal := execution
      sandboxScope := sandboxScope run
      maxRepairAttempts := run.maxRepairAttempts } run
  assertExecutionHeld execution
  persistGeneration run (baseSnapshot.map (·._id)) generation

/-- The candidate kept for a retry of the validation, and the error that the run gets. -/
def storeFailedCandidate (run : AgentRun) (error : AgentError) :
    Promise (Option ValidationCandidate × AgentErrorPayload) :=
  match error.candidate with
  | some failedCandidate =>
    if (publicAgentError error).code = .validationInfraError then
      Prog.tryCatch (do
          let candidate ← createRunCandidate run failedCandidate
          return (some candidate, publicAgentError error))
        fun candidateError => return (none, publicAgentError candidateError)
    else return (none, publicAgentError error)
  | none => return (none, publicAgentError error)

/-- The statuses that `processAgentRun` does not overwrite with `failed`. The list of
`processValidationCandidate` also has `completed_with_conflict`. -/
def generationSettledStatuses : List AgentRunStatus := [.completed, .failed, .cancelled]

def retrySettledStatuses : List AgentRunStatus :=
  [.completed, .completedWithConflict, .failed, .cancelled]

/-- After a failed generation: keep a candidate, store `failed`, announce it. -/
def failGeneration (run : AgentRun) (error : AgentError) : Promise Unit := do
  let (candidate, publicError) ← storeFailedCandidate run error
  let now ← perform .now
  let modifiedCount ← perform (.updateRun run._id (.noneOf generationSettledStatuses)
    { status := some .failed
      error := some publicError
      validationCandidateId := candidate.map (·._id)
      retryable := some candidate.isSome
      completedAt := some now })
  if modifiedCount = 1 then do
    let _ ← emitAgentEvent (failureEvent run publicError)
    return ()
  else match candidate with
    | some candidate => perform (.deleteCandidate candidate._id)
    | none => return ()

/-- The `catch` of `processAgentRun`. -/
def handleGenerationError (run : AgentRun) (error : AgentError) : Promise Unit :=
  if error.code = .runCancelled then return ()
  else if error.code = .completionEventFailed then .throw error
  else failGeneration run error

def generateOrFail (content : ProjectContent) (run : AgentRun) (modelClient : ModelClient)
    (validator : ProjectValidator) (execution : Option GuardHandle) : Promise Unit :=
  Prog.tryCatch (generateRun content run modelClient validator execution)
    (handleGenerationError run)

def processAgentRun (content : ProjectContent) (job : AgentRunJob) (modelClient : ModelClient)
    (validator : ProjectValidator) (execution : Option GuardHandle) : Promise Unit := do
  let run ← perform (.findRun job.runId .processAgentRun)
  match run with
  | none => .throw { code := .none, message := "AgentRun not found: " ++ toString job.runId }
  | some run =>
    match run.status with
    | .persisting => resumePersisting run
    | .completed | .completedWithConflict => resumeCompleted run
    | _ => generateOrFail content run modelClient validator execution

def validationNotVerifiedError (validation : ValidationResult) : AgentError :=
  { code := .validationNotVerified
    message := "Simulated Sandbox validation cannot verify a project build"
    details := some validation }

/-- The error for a validation of the stored candidate that did not pass. -/
def candidateValidationError (validation : ValidationResult) : AgentError :=
  if validation.category = some .infraError then
    { code := .validationInfraError
      message := "Validation environment is temporarily unavailable"
      details := some validation }
  else
    { code := .validationFailed
      message := "Stored candidate failed validation"
      details := some validation }

def candidateUnavailableError : AgentError :=
  { code := .validationCandidateNotFound, message := "Validation candidate is unavailable" }

def candidateExpiredError : AgentError :=
  { code := .validationCandidateExpired, message := "Validation candidate has expired" }

def persistCandidate (run : AgentRun) (candidate : ValidationCandidate)
    (bundle : ProjectArtifactBundle) (validation : ValidationResult) : Promise Unit := do
  let run ← transitionRun run .validating .persisting
  let snapshot ← createRunSnapshot run
    ⟨run.baseSnapshotId, bundle.files, bundle.packageJson, validation, candidate.summary⟩
  let status ← completeRunWithSnapshot run snapshot { retryable := some false }
  perform (.deleteCandidate candidate._id)
  let _ ← emitAgentEvent (completionEvent run snapshot._id bundle.files.length status)
  return ()

def validateCandidate (run : AgentRun) (candidate : ValidationCandidate)
    (validator : ProjectValidator) (execution : Option GuardHandle) : Promise Unit := do
  let candidateBundle ← perform (.readOwnedBundle
    { artifactId := candidate.artifactId, workspaceId := run.workspaceId
      projectId := run.projectId, kind := .validationCandidate })
  let now ← perform .now
  let run ← transitionRun run .queued .running { startedAt := some now }
  let _ ← emitAgentEvent (runEvent run .runStarted "Validation retry started")
  let run ← transitionRun run .running .validating
  let (validation, _) ← (validator.validate
    { runId := run._id, suffix := "retry", files := candidateBundle.files
      sandboxScope := sandboxScope run }).execute execution
    (fun s progress => do
      let _ ← emitAgentEvent
        (runEvent run .validationStep progress.message (some (.progress progress)))
      return s) ()
  if validation.status = .passed ∧ validation.verification = some .simulated then
    .throw (validationNotVerifiedError validation)
  else if validation.status ≠ .passed then .throw (candidateValidationError validation)
  else do
    let _ ← emitAgentEvent (runEvent run .validationPassed "Project validation passed"
      (some (.validation validation)))
    assertExecutionHeld execution
    persistCandidate run candidate candidateBundle validation

/-- The body of the `try` of `processValidationCandidate`. -/
def retryRun (run : AgentRun) (validator : ProjectValidator) (execution : Option GuardHandle) :
    Promise Unit := do
  let candidate ← perform (.findCandidate
    { id := run.validationCandidateId, userId := run.userId, workspaceId := run.workspaceId
      projectId := run.projectId, branchId := run.branchId, sourceRunId := run.retryOfRunId })
  match candidate with
  | none => .throw candidateUnavailableError
  | some candidate => do
    let now ← perform .now
    if candidate.expiresAt ≤ now then .throw candidateExpiredError
    else validateCandidate run candidate validator execution

/-- `error instanceof ArtifactError && error.retryable` is `error.retryable = some true`. -/
def isRetryable (error : AgentError) : Bool :=
  let publicError := publicAgentError error
  publicError.code == .validationInfraError || publicError.code == .artifactStoreUnavailable ||
    (publicError.code == .artifactWriteFailed && error.retryable == some true)

def failRetry (run : AgentRun) (error : AgentError) : Promise Unit := do
  let now ← perform .now
  let _ ← perform (.updateRun run._id (.noneOf retrySettledStatuses)
    { status := some .failed
      error := some (publicAgentError error)
      retryable := some (isRetryable error)
      completedAt := some now })
  let _ ← emitAgentEvent (failureEvent run (publicAgentError error))
  return ()

/-- The `catch` of `processValidationCandidate`. -/
def handleRetryError (run : AgentRun) (error : AgentError) : Promise Unit :=
  if error.code = .runCancelled then return () else failRetry run error

def processValidationCandidate (job : AgentRunJob) (validator : ProjectValidator)
    (execution : Option GuardHandle) : Promise Unit :=
  match job.candidateId with
  | none =>
    .throw { code := .none, message := "Retry-validation job requires a candidate id" }
  | some candidateId => do
    let run ← perform (.findRun job.runId .processValidationCandidate)
    match run with
    | none => return ()
    | some run =>
      if run.status = .queued then
        if run.validationCandidateId = some candidateId ∧ run.retryOfRunId.isSome then
          Prog.tryCatch (retryRun run validator execution) (handleRetryError run)
        else .throw { code := .none, message := "Validation candidate not found" }
      else return ()

end AppBuilder.Agent
