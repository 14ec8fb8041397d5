import AppBuilder.Agent.Generation

/-! `runAgentGenerationWithValidation` as a dialogue: each call of the model client, the validator
and `onEvent` is an operation of its own, whose answer is not known. -/
namespace AppBuilder.Agent
open Async Store

inductive GenerationOp where
  | onEvent (event : WorkerEvent)
  | generatePlan (context : AgentContext)
  | generateFiles (context : AgentContext) (plan : AgentPlan)
  | repairFiles (input : RepairInput)
  | repairDependencies (input : RepairInput)
  | validate (input : ValidateProjectInput)

def GenerationOp.Reply : GenerationOp → Type
  | .onEvent _ => Unit
  | .generatePlan _ => ModelResult AgentPlan
  | .generateFiles .. => ModelResult GenerationResult
  | .repairFiles _ => ModelResult GenerationResult
  | .repairDependencies _ => ModelResult GenerationResult
  | .validate _ => ValidationResult

def generationApi : Interface := ⟨GenerationOp, GenerationOp.Reply, AgentError⟩

abbrev Dialogue (α : Type) : Type := Prog generationApi α

/-- The input of a generation without its callbacks. -/
structure GenerationTask where
  context : AgentContext
  baseFiles : List ProjectFile
  basePackageJson : Option ProjectSnapshotPackageJson
  generatedByRunId : Option ObjectId
  hasRepairDependencies : Bool
  runId : ObjectId
  sandboxScope : SandboxScope
  maxRepairAttempts : ℕ

namespace Dialogue

variable (content : ProjectContent) (task : GenerationTask)

abbrev call (op : GenerationOp) : Dialogue op.Reply := Prog.perform (I := generationApi) op

def onEvent (event : WorkerEvent) : Dialogue Unit := call (.onEvent event)

def settle {α : Type} : Except OrdinaryError α → Dialogue α
  | .ok a => .pure a
  | .error e => .throw e.val

def emitFileChanges (repairAttempt : Option ℕ) (operations : List FileOperation) : Dialogue Unit :=
  Prog.foldEach (fun _ operation => onEvent
    { type := .fileChanged
      message := operation.type ++ " " ++ operation.path
      payload := some (.fileChanged operation.type operation.path repairAttempt) }) () operations

def runAgentGeneration : Dialogue RunAgentGenerationResult := do
  onEvent
    { type := .agentStep, message := "Planning project changes"
      payload := some (.step .planning none) }
  let planned ← call (.generatePlan task.context)
  onEvent
    { type := .agentPlan, message := planned.value.summary, payload := some (.plan planned.value) }
  onEvent
    { type := .agentStep, message := "Generating React TypeScript files"
      payload := some (.step .generating none) }
  let generated ← call (.generateFiles task.context planned.value)
  if task.context.mode = .edit ∧
      hasEffectiveFileChanges task.baseFiles generated.value.operations = false then
    .throw { code := .noEffectiveChanges
             message := "The model did not produce any effective file changes" }
  else do
    let packageJson := content.mergeProjectPackageJson task.basePackageJson generated.value
    let files ← settle (content.applyFileOperations task.baseFiles
      generated.value.operations task.generatedByRunId)
    let files ← settle (writeServerPackageJson content files packageJson task.generatedByRunId)
    emitFileChanges none generated.value.operations
    return ⟨files, packageJson, generated.value.message,
      combineUsage planned.usage generated.usage, planned.value⟩

def requestRepair (plan : AgentPlan) (st : RepairState) (validation : ValidationResult) :
    Dialogue (ModelResult GenerationResult) :=
  let repairInput : RepairInput :=
    ⟨task.context, plan, st.repairAttempts, st.files, validation⟩
  if validation.category = some .dependencyError ∧ task.hasRepairDependencies then
    call (.repairDependencies repairInput)
  else call (.repairFiles repairInput)

variable {task} in
theorem requestRepair_dependencies {plan : AgentPlan} {st : RepairState}
    {validation : ValidationResult}
    (h : validation.category = some .dependencyError ∧ task.hasRepairDependencies = true) :
    requestRepair task plan st validation = call (.repairDependencies
      ⟨task.context, plan, st.repairAttempts, st.files, validation⟩) := if_pos h

variable {task} in
theorem requestRepair_files {plan : AgentPlan} {st : RepairState} {validation : ValidationResult}
    (h : ¬(validation.category = some .dependencyError ∧ task.hasRepairDependencies = true)) :
    requestRepair task plan st validation = call (.repairFiles
      ⟨task.context, plan, st.repairAttempts, st.files, validation⟩) := if_neg h

/-- What a repair changes of the variables of the loop. -/
structure Repaired where
  files : List ProjectFile
  packageJson : ProjectSnapshotPackageJson
  summary : String
  usage : Option ModelUsage

def repairProject (plan : AgentPlan) (st : RepairState) (validation : ValidationResult) :
    Dialogue Repaired := do
  onEvent
    { type := .repairStarted
      message := "Repair attempt " ++ toString st.repairAttempts ++ " started"
      payload := some (.step .repairing (some st.repairAttempts)) }
  let repaired ← requestRepair task plan st validation
  let packageJson := content.mergeProjectPackageJson (some st.packageJson) repaired.value
  let files ← settle (content.applyFileOperations st.files repaired.value.operations
    task.generatedByRunId)
  if packageJson = st.packageJson ∧ filesChanged st.files files = false then
    .throw { code := .noEffectiveChanges
             message := "The model did not produce any effective repair changes" }
  else do
    let files ← settle (writeServerPackageJson content files packageJson task.generatedByRunId)
    onEvent
      { type := .agentStep
        message := "Applied repair attempt " ++ toString st.repairAttempts
        payload := some (.step .generating (some st.repairAttempts)) }
    emitFileChanges (some st.repairAttempts) repaired.value.operations
    return ⟨files, packageJson, repaired.value.message, combineUsage st.usage repaired.usage⟩

def validateInput (st : RepairState) : ValidateProjectInput where
  runId := task.runId
  suffix := toString st.repairAttempts
  files := st.files
  sandboxScope := { task.sandboxScope with attempt := st.repairAttempts }

/-- The loop of the source, which has no bound of its own. -/
def repairLoop (plan : AgentPlan) (st : RepairState) : Dialogue ValidatedAgentGenerationResult := do
  onEvent
    { type := .validationStarted, message := "Validating generated project"
      payload := some (.step .validating (some st.repairAttempts)) }
  let validation ← call (.validate (validateInput task st))
  if validation.status = .passed ∧ validation.verification = some .simulated then do
    onEvent
      { type := .validationFailed
        message := "Project validation was simulated and is not verified"
        payload := some (.validation validation) }
    .throw { code := .validationNotVerified
             message := "Simulated Sandbox validation cannot verify a project build"
             details := some validation }
  else if validation.status = .passed then do
    onEvent
      { type := .validationPassed, message := "Project validation passed"
        payload := some (.validation validation) }
    return ⟨st.files, st.packageJson, st.summary, st.usage, validation, st.repairAttempts⟩
  else do
    onEvent
      { type := .validationFailed, message := "Project validation failed"
        payload := some (.validation validation) }
    if validation.category = some .infraError then
      .throw { code := .validationInfraError
               message := "Validation environment is temporarily unavailable"
               details := some validation
               candidate := some ⟨st.files, st.packageJson, st.summary⟩ }
    else if st.seenDiagnostics.contains (content.diagnosticFingerprint validation) then
      .throw { code := .repeatedValidationFailure
               message := "Validation repair repeated the same failure"
               details := some validation }
    else if _hlast : task.maxRepairAttempts ≤ st.repairAttempts then
      .throw { code := .validationFailed
               message := "Generated project failed validation"
               details := some validation }
    else do
      let seenDiagnostics := content.diagnosticFingerprint validation :: st.seenDiagnostics
      let repaired ← repairProject content task plan
        { st with repairAttempts := st.repairAttempts + 1, seenDiagnostics } validation
      repairLoop plan
        { files := repaired.files
          packageJson := repaired.packageJson
          summary := repaired.summary
          usage := repaired.usage
          repairAttempts := st.repairAttempts + 1
          seenDiagnostics }
termination_by task.maxRepairAttempts - st.repairAttempts

def runAgentGenerationWithValidation : Dialogue ValidatedAgentGenerationResult := do
  let generated ← runAgentGeneration content task
  repairLoop content task generated.plan
    ⟨generated.files, generated.packageJson, generated.summary, generated.usage, 0, []⟩

end Dialogue

variable {ρ α β : Type}

def RunAgentGenerationInput.task (input : RunAgentGenerationInput ρ) : GenerationTask where
  context := input.context
  baseFiles := input.baseFiles
  basePackageJson := input.basePackageJson
  generatedByRunId := input.generatedByRunId
  hasRepairDependencies := input.modelClient.repairDependencies.isSome
  runId := input.runId
  sandboxScope := input.sandboxScope
  maxRepairAttempts := input.maxRepairAttempts

/-- What a model client, a validator and a callback answer. -/
def answer (input : RunAgentGenerationInput ρ) : (op : GenerationOp) → ρ → Promise (op.Reply × ρ)
  | .onEvent event, s => (input.onEvent s event).bind fun s => .pure ((), s)
  | .generatePlan context, s =>
    (settle (input.modelClient.generatePlan context)).bind fun planned => .pure (planned, s)
  | .generateFiles context plan, s =>
    (settle (input.modelClient.generateFiles context plan)).bind fun generated => .pure (generated, s)
  | .repairFiles repairInput, s =>
    (settle (input.modelClient.repairFiles repairInput)).bind fun repaired => .pure (repaired, s)
  | .repairDependencies repairInput, s =>
    (settle ((input.modelClient.repairDependencies.getD input.modelClient.repairFiles)
      repairInput)).bind fun repaired => .pure (repaired, s)
  | .validate validateInput, s =>
    (input.validator.validate validateInput).execute input.signal (fun s progress => input.onEvent s
      { type := .validationStep, message := progress.message
        payload := some (.progress progress) }) s

/-- The dialogue with the answers that the input gives. -/
def enact (input : RunAgentGenerationInput ρ) : Dialogue α → ρ → Promise (α × ρ)
  | .pure a, s => .pure (a, s)
  | .throw e, _ => .throw e
  | .await op next, s => (answer input op s).attempt.bind fun
    | .ok (a, s) => enact input (next (.ok a)) s
    | .error e => enact input (next (.error e)) s

section Enact

variable {input : RunAgentGenerationInput ρ}

theorem attempt_bind (p : Promise α) (f : α → Promise β) :
    (p.attempt.bind fun
      | .ok a => f a
      | .error e => .throw e) = p.bind f := by
  induction p with
  | pure a => rfl
  | throw e => rfl
  | await op next ih => exact congrArg (Prog.await op) (funext ih)

theorem enact_bind (p : Dialogue α) (f : α → Dialogue β) (s : ρ) :
    enact input (p.bind f) s = (enact input p s).bind fun r => enact input (f r.1) r.2 := by
  induction p generalizing s with
  | pure a => rfl
  | throw e => rfl
  | await op next ih =>
    rw [Prog.await_bind, enact, enact, Prog.bind_assoc]
    refine congrArg (Prog.bind _) (funext fun r => ?_)
    rcases r with e | ⟨a, s⟩
    · exact ih _ s
    · exact ih _ s

theorem enact_throw (e : AgentError) (s : ρ) :
    enact input (.throw e : Dialogue α) s = .throw e := enact.eq_2 ..

theorem enact_await (op : generationApi.Op) (next : generationApi.Answer op → Dialogue α) (s : ρ) :
    enact input (.await op next) s = (answer input op s).attempt.bind fun
      | .ok (a, s) => enact input (next (.ok a)) s
      | .error e => enact input (next (.error e)) s := by
  rw [enact]

theorem enact_call (op : GenerationOp) (s : ρ) :
    enact input (Dialogue.call op) s = answer input op s := by
  have hpure : (answer input op s).bind (fun r => .pure r) = answer input op s := by
    induction answer input op s with
    | pure a => rfl
    | throw e => rfl
    | await op next ih => exact congrArg (Prog.await op) (funext ih)
  have hcall : enact input (Dialogue.call op) s = (answer input op s).bind fun r => .pure r := by
    rw [← attempt_bind]
    refine (enact_await op _ s).trans (congrArg _ (funext fun r => ?_))
    rcases r with e | ⟨a, s⟩
    · rfl
    · rfl
  rw [hcall, hpure]

theorem enact_event_then (event : WorkerEvent) (f : Unit → Dialogue β) (s : ρ) :
    enact input ((Dialogue.onEvent event).bind f) s =
      (input.onEvent s event).bind fun s => enact input (f ()) s := by
  have hevent : enact input (Dialogue.onEvent event) s =
      (input.onEvent s event).bind fun s => .pure ((), s) := enact_call (.onEvent event) s
  rw [enact_bind, hevent, Prog.bind_assoc]
  rfl

theorem enact_settle_then (r : Except OrdinaryError α) (f : α → Dialogue β) (s : ρ) :
    enact input ((Dialogue.settle r).bind f) s = (settle r).bind fun a => enact input (f a) s := by
  cases r with
  | ok a => rfl
  | error e => rfl

theorem enact_emitFileChanges (repairAttempt : Option ℕ) (operations : List FileOperation) (s : ρ) :
    enact input (Dialogue.emitFileChanges repairAttempt operations) s =
      (emitFileChanges input.onEvent repairAttempt s operations).bind fun s => .pure ((), s) := by
  induction operations generalizing s with
  | nil => rfl
  | cons operation operations ih =>
    rw [Dialogue.emitFileChanges, Prog.foldEach, enact_event_then, emitFileChanges, Prog.foldEach,
      Prog.bind_assoc]
    exact congrArg (Prog.bind _) (funext fun s => ih s)

theorem enact_call_then (op : GenerationOp) (f : op.Reply → Dialogue β) (s : ρ) :
    enact input ((Dialogue.call op).bind f) s =
      (answer input op s).bind fun r => enact input (f r.1) r.2 := by
  rw [enact_bind]
  exact congrArg (Prog.bind · _) (enact_call op s)

/-- A call of the model client, which leaves the memory of the caller alone. -/
theorem enact_settled_then (op : GenerationOp) {r : Except OrdinaryError op.Reply}
    (hanswer : ∀ s, answer input op s = (settle r).bind fun a => .pure (a, s))
    (f : op.Reply → Dialogue β) (s : ρ) :
    enact input ((Dialogue.call op).bind f) s = (settle r).bind fun a => enact input (f a) s := by
  rw [enact_call_then, hanswer, Prog.bind_assoc]
  rfl

theorem enact_requestRepair_then (plan : AgentPlan) (st : RepairState)
    (validation : ValidationResult) (f : ModelResult GenerationResult → Dialogue β) (s : ρ) :
    enact input ((Dialogue.requestRepair input.task plan st validation).bind f) s =
      (settle (requestRepair input plan st validation)).bind fun a => enact input (f a) s := by
  by_cases hdependency : validation.category = some .dependencyError
  · cases hrepair : input.modelClient.repairDependencies with
    | none =>
      have htask : ¬(validation.category = some .dependencyError ∧
          input.task.hasRepairDependencies = true) := by
        rintro ⟨-, h⟩
        rw [RunAgentGenerationInput.task, hrepair] at h
        cases h
      have hmodel : requestRepair input plan st validation = input.modelClient.repairFiles
          ⟨input.context, plan, st.repairAttempts, st.files, validation⟩ := by
        rw [requestRepair, if_pos hdependency, hrepair, Option.getD_none]
      rw [hmodel, Dialogue.requestRepair_files htask]
      exact enact_settled_then (.repairFiles _) (fun _ => rfl) f s
    | some repair =>
      have htask : validation.category = some .dependencyError ∧
          input.task.hasRepairDependencies = true := by
        refine ⟨hdependency, ?_⟩
        rw [RunAgentGenerationInput.task, hrepair]
        rfl
      rw [Dialogue.requestRepair_dependencies htask, requestRepair, if_pos hdependency]
      exact enact_settled_then (.repairDependencies _) (fun _ => rfl) f s
  · have htask : ¬(validation.category = some .dependencyError ∧
        input.task.hasRepairDependencies = true) := fun h => hdependency h.1
    rw [Dialogue.requestRepair_files htask, requestRepair, if_neg hdependency]
    exact enact_settled_then (.repairFiles _) (fun _ => rfl) f s

theorem enact_ite {c : Prop} [Decidable c] {p q : Dialogue β} {p' q' : Promise (β × ρ)} {s : ρ}
    (hp : c → enact input p s = p') (hq : ¬c → enact input q s = q') :
    enact input (if c then p else q) s = if c then p' else q' := by
  by_cases h : c
  · rw [if_pos h, if_pos h, hp h]
  · rw [if_neg h, if_neg h, hq h]

theorem enact_runAgentGeneration (s : ρ) :
    enact input (Dialogue.runAgentGeneration input.content input.task) s =
      runAgentGeneration input s := by
  refine (enact_event_then _ _ s).trans (congrArg (Prog.bind _) (funext fun s => ?_))
  refine (enact_settled_then (.generatePlan _) (fun _ => rfl) _ s).trans
    (congrArg (Prog.bind _) (funext fun planned => ?_))
  refine (enact_event_then _ _ s).trans (congrArg (Prog.bind _) (funext fun s => ?_))
  refine (enact_event_then _ _ s).trans (congrArg (Prog.bind _) (funext fun s => ?_))
  refine (enact_settled_then (.generateFiles _ _) (fun _ => rfl) _ s).trans
    (congrArg (Prog.bind _) (funext fun generated => ?_))
  refine enact_ite (fun _ => enact_throw _ s) fun _ => ?_
  refine (enact_settle_then _ _ s).trans (congrArg (Prog.bind _) (funext fun files => ?_))
  refine (enact_settle_then _ _ s).trans (congrArg (Prog.bind _) (funext fun files => ?_))
  refine (enact_bind _ _ s).trans ?_
  rw [enact_emitFileChanges, Prog.bind_assoc]
  rfl

/-- The variables of the loop after a repair. -/
def Dialogue.Repaired.state (repaired : Dialogue.Repaired) (st : RepairState) : RepairState :=
  { st with
    files := repaired.files
    packageJson := repaired.packageJson
    summary := repaired.summary
    usage := repaired.usage }

theorem enact_repairProject_then (plan : AgentPlan) (st : RepairState)
    (validation : ValidationResult) (f : Dialogue.Repaired → Dialogue β)
    (g : RepairState → ρ → Promise (β × ρ))
    (hfg : ∀ repaired s, enact input (f repaired) s = g (repaired.state st) s) (s : ρ) :
    enact input ((Dialogue.repairProject input.content input.task plan st validation).bind f) s =
      (repairProject input plan st validation s).bind fun r => g r.1 r.2 := by
  unfold Dialogue.repairProject repairProject
  simp only [Prog.bind_eq, Prog.bind_assoc]
  refine (enact_event_then _ _ s).trans (congrArg (Prog.bind _) (funext fun s => ?_))
  refine (enact_requestRepair_then plan st validation _ s).trans
    (congrArg (Prog.bind _) (funext fun repaired => ?_))
  refine (enact_settle_then _ _ s).trans (congrArg (Prog.bind _) (funext fun files => ?_))
  by_cases hunchanged : input.content.mergeProjectPackageJson (some st.packageJson) repaired.value =
      st.packageJson ∧ filesChanged st.files files = false
  · rw [if_pos hunchanged, if_pos hunchanged]
    exact enact_throw _ s
  · rw [if_neg hunchanged, if_neg hunchanged]
    simp only [Prog.bind_assoc]
    refine (enact_settle_then _ _ s).trans (congrArg (Prog.bind _) (funext fun files => ?_))
    refine (enact_event_then _ _ s).trans (congrArg (Prog.bind _) (funext fun s => ?_))
    refine (enact_bind _ _ s).trans ?_
    rw [enact_emitFileChanges, Prog.bind_assoc]
    exact congrArg (Prog.bind _) (funext fun s => hfg _ s)

theorem enact_round (plan : AgentPlan) (st : RepairState)
    (again : Option (RepairState → ρ → Promise (ValidatedAgentGenerationResult × ρ)))
    (hnone : again = none ↔ input.maxRepairAttempts ≤ st.repairAttempts)
    (hsome : ∀ f, again = some f → ∀ st' s, st'.repairAttempts = st.repairAttempts + 1 →
      enact input (Dialogue.repairLoop input.content input.task plan st') s = f st' s) (s : ρ) :
    enact input (Dialogue.repairLoop input.content input.task plan st) s =
      validationRound input plan again st s := by
  rw [Dialogue.repairLoop]
  refine (enact_event_then _ _ s).trans (congrArg (Prog.bind _) (funext fun s => ?_))
  refine (enact_call_then _ _ s).trans (congrArg (Prog.bind _) (funext fun r => ?_))
  obtain ⟨validation, s⟩ := r
  refine enact_ite (fun _ => ?_) fun _ => enact_ite (fun _ => ?_) fun _ => ?_
  · refine (enact_event_then _ _ s).trans (congrArg (Prog.bind _) (funext fun s => ?_))
    exact enact_throw _ s
  · exact enact_event_then _ _ s
  · refine (enact_event_then _ _ s).trans (congrArg (Prog.bind _) (funext fun s => ?_))
    refine enact_ite (fun _ => enact_throw _ s) fun _ =>
      enact_ite (fun _ => enact_throw _ s) fun _ => ?_
    cases again with
    | none =>
      have hlast : input.task.maxRepairAttempts ≤ st.repairAttempts := hnone.mp rfl
      rw [dif_pos hlast]
      exact enact_throw _ s
    | some f =>
      have hmore : ¬input.task.maxRepairAttempts ≤ st.repairAttempts := fun h =>
        nomatch hnone.mpr h
      rw [dif_neg hmore]
      exact enact_repairProject_then plan _ validation _ f
        (fun repaired s => hsome f rfl (repaired.state _) s rfl) s

/-- The loop of the source is the one that counts the repairs that are left. -/
theorem enact_repairLoop (plan : AgentPlan) (remaining : ℕ) (st : RepairState)
    (hremaining : input.maxRepairAttempts = st.repairAttempts + remaining) (s : ρ) :
    enact input (Dialogue.repairLoop input.content input.task plan st) s =
      repairLoop input plan remaining st s := by
  induction remaining generalizing st s with
  | zero =>
    exact enact_round plan st none (iff_of_true rfl (by omega)) (fun _ h => nomatch h) s
  | succ remaining ih =>
    refine enact_round plan st (some (repairLoop input plan remaining))
      (iff_of_false nofun (by omega)) (fun f hf st' s hst => ?_) s
    cases hf
    exact ih st' (by omega) s

theorem enact_generation (s : ρ) :
    enact input (Dialogue.runAgentGenerationWithValidation input.content input.task) s =
      runAgentGenerationWithValidation input s := by
  refine (enact_bind _ _ s).trans ?_
  rw [enact_runAgentGeneration]
  exact congrArg (Prog.bind _) (funext fun r => enact_repairLoop r.1.plan _ _
    (Nat.zero_add _).symm r.2)

end Enact

end AppBuilder.Agent
