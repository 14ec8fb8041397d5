import AppBuilder.Agent.CreateWorker
import AppBuilder.Async.Execution

/-! What the processing of a job never does: make a guard, release one, or prepare a run. -/
namespace AppBuilder.Agent
open Async Store Branches

/-- The operations between the acquisition of the branch and the block whose `finally` releases. -/
def isPreparation : Op → Bool
  | .findRun _ .createAgentJobProcessor | .findBranch _ .createAgentJobProcessor => true
  | .updateRun _ (.equals .waitingForCapacity) _ | .setLeaseBase .. => true
  | _ => false

/-- The operations that neither make a guard, nor release one, nor prepare a run. -/
def isCalm : Op → Bool
  | .newGuard .. | .clearHeartbeat _ => false
  | op => !isPreparation op

def Calm {α : Type} (p : Promise α) : Prop := p.Awaits fun op => isCalm op = true

section Calm

variable {α β ρ : Type}

theorem calm_perform {op : Op} (h : isCalm op = true) : Calm (perform op) := Prog.awaits_perform h

theorem Calm.bind {p : Promise α} {f : α → Promise β} (hp : Calm p) (hf : ∀ a, Calm (f a)) :
    Calm (p.bind f) := Prog.Awaits.bind hp hf

/-- An operation whose answer is not used. -/
theorem calm_ignored {op : Op} (h : isCalm op = true) :
    Calm ((perform op).bind fun _ => (Prog.pure () : Promise Unit)) :=
  (calm_perform h).bind fun _ => trivial

theorem calm_awaitSome {x : Option α} {f : α → Promise (Option β)} (hf : ∀ a, Calm (f a)) :
    Calm (awaitSome x f) := by
  cases x with
  | none => trivial
  | some a => exact hf a

theorem calm_settle (r : Except OrdinaryError α) : Calm (settle r) := by
  cases r with
  | error e => trivial
  | ok a => trivial

theorem calm_emitAgentEvent (input : EmitAgentEventInput) : Calm (emitAgentEvent input) := by
  have hsequence : Calm (getNextSequence input.runId) := (calm_perform rfl).bind fun _ => trivial
  refine hsequence.bind fun sequence => ?_
  refine (calm_perform rfl).bind fun event => ?_
  exact (calm_perform rfl).bind fun _ => trivial

theorem calm_transitionRun (run : AgentRun) {expectedStatus nextStatus : AgentRunStatus}
    (fields : RunPatch) (h : expectedStatus ≠ .waitingForCapacity) :
    Calm (transitionRun run expectedStatus nextStatus fields) := by
  unfold transitionRun
  split
  · trivial
  · have hupdate : isCalm (.updateRun run._id (.equals expectedStatus)
        { fields with status := some nextStatus }) = true := by
      cases expectedStatus <;> first | rfl | exact absurd rfl h
    refine (calm_perform hupdate).bind fun modifiedCount => ?_
    split_ifs
    · trivial
    · refine (calm_perform rfl).bind fun current => ?_
      split_ifs
      · trivial
      · trivial

theorem calm_assertHeld (guard : GuardHandle) : Calm (assertHeld guard) := by
  have haborted : Calm (throwIfAborted guard) := by
    refine (calm_perform rfl).bind fun aborted => ?_
    cases aborted with
    | true => trivial
    | false => trivial
  have hstored : Calm (checkStoredLease guard) := by
    refine (calm_perform rfl).bind fun now => ?_
    refine (calm_perform rfl).bind fun held => ?_
    exact (calm_perform rfl).bind fun _ => trivial
  refine haborted.bind fun _ => (calm_perform rfl).bind fun lost => ?_
  cases lost with
  | true => trivial
  | false =>
    refine hstored.bind fun lost => ?_
    cases lost with
    | true => trivial
    | false => exact haborted

theorem calm_assertExecutionHeld (execution : Option GuardHandle) :
    Calm (assertExecutionHeld execution) := by
  cases execution with
  | none => trivial
  | some guard => exact calm_assertHeld guard

theorem calm_execute {signal : Option GuardHandle}
    {onProgress : ρ → ValidationProgressEvent → Promise ρ} (h : ∀ s e, Calm (onProgress s e))
    (run : ValidatorRun) (s : ρ) : Calm (run.execute signal onProgress s) := by
  induction run generalizing s with
  | finish result => trivial
  | fail error => trivial
  | throwIfAborted next ih =>
    cases signal with
    | none => exact ih s
    | some guard =>
      refine Calm.bind ((calm_perform rfl).bind fun aborted => ?_) fun _ => ih s
      cases aborted with
      | true => trivial
      | false => trivial
  | report progress next ih => exact (h s progress).bind ih
  | reportOrElse progress next recover ih ihr =>
    refine Calm.bind (h s progress).attempt fun r => ?_
    cases r with
    | error e => exact ihr s
    | ok s => exact ih s

end Calm

section Generation

variable {ρ : Type} {input : RunAgentGenerationInput ρ}

theorem calm_emitFileChanges {onEvent : ρ → WorkerEvent → Promise ρ}
    (h : ∀ s e, Calm (onEvent s e)) (repairAttempt : Option ℕ) (s : ρ)
    (operations : List FileOperation) : Calm (emitFileChanges onEvent repairAttempt s operations) :=
  Prog.awaits_foldEach (fun s _ => h s _) s operations

theorem calm_runAgentGeneration (h : ∀ s e, Calm (input.onEvent s e)) (s : ρ) :
    Calm (runAgentGeneration input s) := by
  refine (h s _).bind fun s => ?_
  refine (calm_settle _).bind fun planned => ?_
  refine (h s _).bind fun s => ?_
  refine (h s _).bind fun s => ?_
  refine (calm_settle _).bind fun generated => ?_
  split_ifs
  · trivial
  · refine (calm_settle _).bind fun files => ?_
    refine (calm_settle _).bind fun files => ?_
    exact (calm_emitFileChanges h none s _).bind fun _ => trivial

theorem calm_repairProject (h : ∀ s e, Calm (input.onEvent s e)) (plan : AgentPlan)
    (st : RepairState) (validation : ValidationResult) (s : ρ) :
    Calm (repairProject input plan st validation s) := by
  refine (h s _).bind fun s => ?_
  refine (calm_settle _).bind fun repaired => ?_
  refine (calm_settle _).bind fun files => ?_
  split_ifs
  · trivial
  · refine (calm_settle _).bind fun files => ?_
    refine (h s _).bind fun s => ?_
    exact (calm_emitFileChanges h _ s _).bind fun _ => trivial

theorem calm_validationRound (h : ∀ s e, Calm (input.onEvent s e)) (plan : AgentPlan)
    {again : Option (RepairState → ρ → Promise (ValidatedAgentGenerationResult × ρ))}
    (hagain : ∀ next ∈ again, ∀ st s, Calm (next st s)) (st : RepairState) (s : ρ) :
    Calm (validationRound input plan again st s) := by
  refine (h s _).bind fun s => ?_
  refine (calm_execute (fun s e => h s _) _ s).bind fun result => ?_
  obtain ⟨validation, s⟩ := result
  dsimp only
  split_ifs
  · exact (h s _).bind fun _ => trivial
  · exact (h s _).bind fun _ => trivial
  · exact (h s _).bind fun _ => trivial
  · exact (h s _).bind fun _ => trivial
  · refine (h s _).bind fun s => ?_
    cases again with
    | none => trivial
    | some next =>
      refine (calm_repairProject h plan _ validation s).bind fun repaired => ?_
      exact hagain next rfl repaired.1 repaired.2

theorem calm_repairLoop (h : ∀ s e, Calm (input.onEvent s e)) (plan : AgentPlan)
    (remaining : ℕ) (st : RepairState) (s : ρ) : Calm (repairLoop input plan remaining st s) := by
  induction remaining generalizing st s with
  | zero => exact calm_validationRound h plan (fun next hnext => by cases hnext) st s
  | succ remaining ih =>
    refine calm_validationRound h plan (fun next hnext => ?_) st s
    cases hnext
    exact ih

theorem calm_runAgentGenerationWithValidation (h : ∀ s e, Calm (input.onEvent s e)) (s : ρ) :
    Calm (runAgentGenerationWithValidation input s) := by
  refine (calm_runAgentGeneration h s).bind fun generated => ?_
  exact calm_repairLoop h _ _ _ _

end Generation

section Orchestrator

variable (run : AgentRun)

theorem calm_updateActiveSnapshot (branchId snapshotId : ObjectId) (headVersion : ℕ) :
    Calm (updateActiveSnapshot run branchId snapshotId headVersion) := by
  refine (calm_perform rfl).bind fun branch => ?_
  split_ifs
  · exact calm_perform rfl
  · trivial

theorem calm_commitBranchHead (input : SetBranchHead) : Calm (commitBranchHead input) := by
  refine (calm_perform rfl).bind fun advanced => ?_
  cases advanced with
  | some branch => trivial
  | none =>
    refine (calm_perform rfl).bind fun current => ?_
    cases current with
    | none => trivial
    | some current => trivial

theorem calm_completeRunWithSnapshot (snapshot : ProjectSnapshot) (fields : RunPatch) :
    Calm (completeRunWithSnapshot run snapshot fields) := by
  unfold completeRunWithSnapshot
  split
  · refine (calm_commitBranchHead _).bind fun committed => ?_
    refine (calm_perform rfl).bind fun now => ?_
    refine (calm_transitionRun run _ (by decide)).bind fun _ => ?_
    split_ifs
    · exact (calm_updateActiveSnapshot run _ _ _).bind fun _ => trivial
    · trivial
  · trivial

theorem calm_assertArtifactMatch {α : Type} (owned : α → ObjectId × ArtifactScope)
    (record : Option α) (artifactId : ObjectId) (scope : ArtifactScope) (kind : ArtifactKind) :
    Calm (assertArtifactMatch owned record artifactId scope kind) := by
  cases record with
  | none => trivial
  | some record =>
    unfold assertArtifactMatch
    dsimp only
    split_ifs
    · refine (calm_perform rfl).bind fun manifest => ?_
      split_ifs
      · trivial
      · trivial
    · trivial

theorem calm_upsertRunSnapshot (fields : ProjectSnapshot) : Calm (upsertRunSnapshot fields) := by
  refine Prog.Awaits.tryCatch ((calm_perform rfl).bind fun _ => trivial) fun error => ?_
  split_ifs
  · exact calm_perform rfl
  · trivial

theorem calm_upsertRunCandidate (fields : ValidationCandidate) :
    Calm (upsertRunCandidate fields) := by
  refine Prog.Awaits.tryCatch ((calm_perform rfl).bind fun _ => trivial) fun error => ?_
  split_ifs
  · exact calm_perform rfl
  · trivial

theorem calm_assertPreviewMatch (workspaceId : ObjectId) (validation : ValidationResult)
    (owned : ProjectSnapshot) : Calm (assertPreviewMatch run workspaceId validation owned) := by
  unfold assertPreviewMatch
  split
  · trivial
  · refine (calm_perform rfl).bind fun manifest => ?_
    split_ifs
    · trivial
    · trivial

theorem calm_createRunSnapshot (input : RunSnapshotInput) : Calm (createRunSnapshot run input) := by
  unfold createRunSnapshot
  split
  · refine (calm_perform rfl).bind fun artifactId => ?_
    refine (calm_upsertRunSnapshot _).bind fun snapshot => ?_
    refine (calm_assertArtifactMatch _ _ _ _ _).bind fun owned => ?_
    exact calm_assertPreviewMatch run _ _ owned
  · trivial

theorem calm_createRunCandidate (input : FailedCandidate) :
    Calm (createRunCandidate run input) := by
  unfold createRunCandidate
  split
  · refine (calm_perform rfl).bind fun artifactId => ?_
    refine (calm_perform rfl).bind fun now => ?_
    refine (calm_upsertRunCandidate _).bind fun candidate => ?_
    exact calm_assertArtifactMatch _ _ _ _ _
  · trivial

theorem calm_findBaseSnapshot : Calm (findBaseSnapshot run) :=
  calm_awaitSome fun _ => calm_perform rfl

theorem calm_readSnapshotBundle (snapshot : Option ProjectSnapshot)
    (workspaceId : ProjectSnapshot → Option ObjectId) (projectId : ProjectSnapshot → ObjectId) :
    Calm (readSnapshotBundle snapshot workspaceId projectId) :=
  calm_awaitSome fun _ => (calm_perform rfl).bind fun _ => trivial

theorem calm_loadAgentContext (content : ProjectContent) : Calm (loadAgentContext content run) := by
  refine (calm_perform rfl).bind fun project => ?_
  cases project with
  | none => trivial
  | some project =>
    refine (calm_awaitSome fun _ => calm_perform rfl).bind fun chat => ?_
    split_ifs
    · trivial
    · refine (calm_findBaseSnapshot run).bind fun baseSnapshot => ?_
      split_ifs
      · trivial
      · exact (calm_readSnapshotBundle _ _ _).bind fun _ => trivial

theorem calm_transitionOnEvent (payload : Option EventPayload) :
    Calm (transitionOnEvent run payload) := by
  unfold transitionOnEvent
  split
  · exact calm_transitionRun run _ (by decide)
  · split_ifs
    · exact calm_transitionRun run _ (by decide)
    · exact calm_transitionRun run _ (by decide)
  · exact calm_transitionRun run _ (by decide)
  · exact calm_transitionRun run _ (by decide)
  · trivial

theorem calm_onWorkerEvent (event : WorkerEvent) : Calm (onWorkerEvent run event) := by
  refine (calm_transitionOnEvent run event.payload).bind fun run => ?_
  exact (calm_emitAgentEvent _).bind fun _ => trivial

theorem calm_resumePersisting : Calm (resumePersisting run) := by
  refine (calm_perform rfl).bind fun pendingSnapshot => ?_
  cases pendingSnapshot with
  | none => exact (calm_perform rfl).bind fun now => (calm_perform rfl).bind fun _ => trivial
  | some snapshot =>
    refine (calm_completeRunWithSnapshot run snapshot _).bind fun status => ?_
    refine (calm_perform rfl).bind fun manifest => ?_
    exact (calm_emitAgentEvent _).bind fun _ => trivial

theorem calm_resumeCompleted : Calm (resumeCompleted run) := by
  refine (calm_perform rfl).bind fun completedEvent => ?_
  split
  · refine (calm_perform rfl).bind fun snapshot => ?_
    refine (calm_awaitSome fun _ => calm_perform rfl).bind fun manifest => ?_
    exact (calm_emitAgentEvent _).bind fun _ => trivial
  · trivial

theorem calm_appendSummary (summary : String) (snapshotId : ObjectId) :
    Calm (appendSummary run summary snapshotId) := by
  unfold appendSummary
  split
  · trivial
  · exact Prog.Awaits.tryCatch (calm_perform rfl) fun _ => trivial

theorem calm_persistGeneration (parentSnapshotId : Option ObjectId)
    (generation : ValidatedAgentGenerationResult) :
    Calm (persistGeneration run parentSnapshotId generation) := by
  refine (calm_transitionRun run _ (by decide)).bind fun run => ?_
  refine (calm_createRunSnapshot run _).bind fun snapshot => ?_
  refine (calm_completeRunWithSnapshot run snapshot _).bind fun status => ?_
  refine (calm_appendSummary run _ _).bind fun _ => ?_
  exact Prog.Awaits.tryCatch ((calm_emitAgentEvent _).bind fun _ => trivial) fun _ => trivial

theorem calm_generateRun (content : ProjectContent) (modelClient : ModelClient)
    (validator : ProjectValidator) (execution : Option GuardHandle) :
    Calm (generateRun content run modelClient validator execution) := by
  refine (calm_perform rfl).bind fun now => ?_
  refine (calm_transitionRun run _ (by decide)).bind fun run => ?_
  refine (calm_emitAgentEvent _).bind fun _ => ?_
  refine (calm_loadAgentContext run content).bind fun context => ?_
  refine (calm_findBaseSnapshot run).bind fun baseSnapshot => ?_
  refine (calm_readSnapshotBundle _ _ _).bind fun baseBundle => ?_
  refine (calm_runAgentGenerationWithValidation calm_onWorkerEvent run).bind fun result => ?_
  refine (calm_assertExecutionHeld execution).bind fun _ => ?_
  exact calm_persistGeneration result.2 _ result.1

theorem calm_handleGenerationError (error : AgentError) : Calm (handleGenerationError run error) := by
  have hstored : Calm (storeFailedCandidate run error) := by
    unfold storeFailedCandidate
    split
    · split_ifs
      · exact Prog.Awaits.tryCatch ((calm_createRunCandidate run _).bind fun _ => trivial)
          fun _ => trivial
      · trivial
    · trivial
  unfold handleGenerationError
  split_ifs
  · trivial
  · trivial
  · refine hstored.bind fun result => ?_
    obtain ⟨candidate, publicError⟩ := result
    refine (calm_perform rfl).bind fun now => ?_
    refine (calm_perform rfl).bind fun modifiedCount => ?_
    split_ifs
    · exact (calm_emitAgentEvent _).bind fun _ => trivial
    · cases candidate with
      | none => trivial
      | some candidate => exact calm_perform rfl

theorem calm_processAgentRun (content : ProjectContent) (job : AgentRunJob)
    (modelClient : ModelClient) (validator : ProjectValidator) (execution : Option GuardHandle) :
    Calm (processAgentRun content job modelClient validator execution) := by
  refine (calm_perform rfl).bind fun run => ?_
  cases run with
  | none => trivial
  | some run =>
    dsimp only
    split
    · exact calm_resumePersisting run
    · exact calm_resumeCompleted run
    · exact calm_resumeCompleted run
    · exact Prog.Awaits.tryCatch (calm_generateRun run content modelClient validator execution)
        (calm_handleGenerationError run)

theorem calm_validateCandidate (candidate : ValidationCandidate) (validator : ProjectValidator)
    (execution : Option GuardHandle) :
    Calm (validateCandidate run candidate validator execution) := by
  refine (calm_perform rfl).bind fun candidateBundle => ?_
  refine (calm_perform rfl).bind fun now => ?_
  refine (calm_transitionRun run _ (by decide)).bind fun run => ?_
  refine (calm_emitAgentEvent _).bind fun _ => ?_
  refine (calm_transitionRun run _ (by decide)).bind fun run => ?_
  refine Calm.bind (calm_execute ?_ _ _) fun result => ?_
  · intro s progress
    exact (calm_emitAgentEvent _).bind fun _ => trivial
  obtain ⟨validation, -⟩ := result
  dsimp only
  split_ifs
  · trivial
  · trivial
  · refine (calm_emitAgentEvent _).bind fun _ => ?_
    refine (calm_assertExecutionHeld execution).bind fun _ => ?_
    refine (calm_transitionRun run _ (by decide)).bind fun run => ?_
    refine (calm_createRunSnapshot run _).bind fun snapshot => ?_
    refine (calm_completeRunWithSnapshot run snapshot _).bind fun status => ?_
    refine (calm_perform rfl).bind fun _ => ?_
    exact (calm_emitAgentEvent _).bind fun _ => trivial

theorem calm_handleRetryError (error : AgentError) : Calm (handleRetryError run error) := by
  unfold handleRetryError
  split_ifs
  · trivial
  · refine (calm_perform rfl).bind fun now => ?_
    refine (calm_perform rfl).bind fun _ => ?_
    exact (calm_emitAgentEvent _).bind fun _ => trivial

theorem calm_processValidationCandidate (job : AgentRunJob) (validator : ProjectValidator)
    (execution : Option GuardHandle) :
    Calm (processValidationCandidate job validator execution) := by
  unfold processValidationCandidate
  split
  · trivial
  · refine (calm_perform rfl).bind fun run => ?_
    cases run with
    | none => trivial
    | some run =>
      dsimp only
      split_ifs
      · refine Prog.Awaits.tryCatch ((calm_perform rfl).bind fun candidate => ?_)
          (calm_handleRetryError run)
        cases candidate with
        | none => trivial
        | some candidate =>
          refine (calm_perform rfl).bind fun now => ?_
          split_ifs
          · trivial
          · exact calm_validateCandidate run candidate validator execution
      · trivial
      · trivial

theorem calm_processJob (dependencies : AgentJobProcessorDependencies) (job : AgentRunJob)
    (initialStatus : AgentRunStatus) (execution : GuardHandle) :
    Calm (processJob dependencies job initialStatus execution) := by
  have hclient : Calm (selectModelClient dependencies job.runId initialStatus) := by
    unfold selectModelClient
    split
    · split_ifs
      · trivial
      · exact Calm.bind (calm_perform rfl).attempt fun _ => trivial
    · trivial
  unfold processJob
  split_ifs
  · exact calm_processValidationCandidate job _ _
  · exact hclient.bind fun modelClient => calm_processAgentRun _ job modelClient _ _

end Orchestrator

end AppBuilder.Agent
