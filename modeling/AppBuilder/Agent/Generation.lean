import AppBuilder.Branches.BranchExecution

/-! Generation, validation and the repair loop of `agent/orchestrator.ts`. The model and the
validator are parameters; so are the functions on file contents, which never await. -/
namespace AppBuilder.Agent
open Async Store Branches

/-- An error of code that knows nothing of cancellation. -/
abbrev OrdinaryError : Type := { e : AgentError // e.code ≠ .runCancelled }

/-- `await` a settled promise. -/
def settle {α : Type} : Except OrdinaryError α → Promise α
  | .ok a => .pure a
  | .error e => .throw e.val

/-- The pure functions of context building, file operations and package data. -/
structure ProjectContent where
  buildAgentContext : AgentRun → Project → List String → List ProjectFile → AgentContext
  resolveProjectBaseFiles : Option (List ProjectFile) → List ProjectFile
  mergeProjectPackageJson :
    Option ProjectSnapshotPackageJson → GenerationResult → ProjectSnapshotPackageJson
  applyFileOperations : List ProjectFile → List FileOperation → Option ObjectId →
    Except OrdinaryError (List ProjectFile)
  stringifyPackageJson : ProjectSnapshotPackageJson → String
  diagnosticFingerprint : ValidationResult → String

structure RepairInput where
  context : AgentContext
  plan : AgentPlan
  attempt : ℕ
  files : List ProjectFile
  validation : ValidationResult

structure ModelClient where
  generatePlan : AgentContext → Except OrdinaryError (ModelResult AgentPlan)
  generateFiles : AgentContext → AgentPlan → Except OrdinaryError (ModelResult GenerationResult)
  repairFiles : RepairInput → Except OrdinaryError (ModelResult GenerationResult)
  repairDependencies : Option (RepairInput → Except OrdinaryError (ModelResult GenerationResult))

def failingModelClient (error : OrdinaryError) : ModelClient where
  generatePlan _ := .error error
  generateFiles _ _ := .error error
  repairFiles _ := .error error
  repairDependencies := some fun _ => .error error

structure SandboxScope where
  workspaceId : Option ObjectId
  projectId : ObjectId
  branchId : Option ObjectId
  requestedByUserId : ObjectId
  runId : ObjectId
  attempt : ℕ

structure ValidateProjectInput where
  runId : ObjectId
  suffix : String
  files : List ProjectFile
  sandboxScope : SandboxScope

/-- What a validator does that its caller can see: it reports progress, looks at the abort
signal, and ends with a result or an error. A failed report either ends the validation with the
same error or is handled by it. -/
inductive ValidatorRun where
  | finish (result : ValidationResult)
  | fail (error : OrdinaryError)
  | throwIfAborted (next : ValidatorRun)
  | report (progress : ValidationProgressEvent) (next : ValidatorRun)
  | reportOrElse (progress : ValidationProgressEvent) (next recover : ValidatorRun)

structure ProjectValidator where
  validate : ValidateProjectInput → ValidatorRun

/-- Run a validation. `s` is the memory of the caller that `onProgress` may rewrite. -/
def ValidatorRun.execute {ρ : Type} (signal : Option GuardHandle)
    (onProgress : ρ → ValidationProgressEvent → Promise ρ) :
    ValidatorRun → ρ → Promise (ValidationResult × ρ)
  | .finish result, s => .pure (result, s)
  | .fail error, _ => .throw error.val
  | .throwIfAborted next, s =>
    match signal with
    | some guard => (Branches.throwIfAborted guard).bind fun _ => next.execute signal onProgress s
    | none => next.execute signal onProgress s
  | .report progress next, s =>
    (onProgress s progress).bind fun s => next.execute signal onProgress s
  | .reportOrElse progress next recover, s =>
    (onProgress s progress).attempt.bind fun
      | .ok s => next.execute signal onProgress s
      | .error _ => recover.execute signal onProgress s

structure WorkerEvent where
  type : AgentEventType
  message : String
  payload : Option EventPayload := none

structure RunAgentGenerationInput (ρ : Type) where
  content : ProjectContent
  context : AgentContext
  baseFiles : List ProjectFile
  basePackageJson : Option ProjectSnapshotPackageJson
  generatedByRunId : Option ObjectId
  modelClient : ModelClient
  onEvent : ρ → WorkerEvent → Promise ρ
  validator : ProjectValidator
  runId : ObjectId
  signal : Option GuardHandle
  sandboxScope : SandboxScope
  maxRepairAttempts : ℕ

structure RunAgentGenerationResult where
  files : List ProjectFile
  packageJson : ProjectSnapshotPackageJson
  summary : String
  usage : Option ModelUsage
  plan : AgentPlan

structure ValidatedAgentGenerationResult where
  files : List ProjectFile
  packageJson : ProjectSnapshotPackageJson
  summary : String
  usage : Option ModelUsage
  validation : ValidationResult
  repairAttempts : ℕ

def sumTokens (left right : Option ℕ) : Option ℕ :=
  if left.isNone && right.isNone then none else some (left.getD 0 + right.getD 0)

def combineUsage (first second : Option ModelUsage) : Option ModelUsage :=
  if first.isNone && second.isNone then none
  else some
    { inputTokens := sumTokens (first.bind (·.inputTokens)) (second.bind (·.inputTokens))
      outputTokens := sumTokens (first.bind (·.outputTokens)) (second.bind (·.outputTokens))
      totalTokens := sumTokens (first.bind (·.totalTokens)) (second.bind (·.totalTokens)) }

/-- `path.replace(/\\/g, '/')` -/
def forwardSlashes (path : String) : String := path.map fun c => if c = '\\' then '/' else c

/-- Lookup in the map from path to content, where the last file of a path wins. -/
def contentByPath (files : List ProjectFile) (path : String) : Option String :=
  (files.reverse.find? fun file => forwardSlashes file.path == path).map (·.content)

def hasEffectiveFileChanges (baseFiles : List ProjectFile) (operations : List FileOperation) :
    Bool :=
  operations.any fun operation =>
    let existingContent := contentByPath baseFiles (forwardSlashes operation.path)
    match operation with
    | .delete _ => existingContent.isSome
    | .create _ content | .update _ content => existingContent != some content

def writeServerPackageJson (content : ProjectContent) (files : List ProjectFile)
    (packageJson : ProjectSnapshotPackageJson) (generatedByRunId : Option ObjectId) :
    Except OrdinaryError (List ProjectFile) :=
  let text := content.stringifyPackageJson packageJson ++ "\n"
  content.applyFileOperations files
    [if files.any (·.path == "package.json") then .update "package.json" text
      else .create "package.json" text] generatedByRunId

variable {ρ : Type}

def emitFileChanges (onEvent : ρ → WorkerEvent → Promise ρ) (repairAttempt : Option ℕ) (s : ρ)
    (operations : List FileOperation) : Promise ρ :=
  Prog.foldEach (fun s operation => onEvent s
    { type := .fileChanged
      message := operation.type ++ " " ++ operation.path
      payload := some (.fileChanged operation.type operation.path repairAttempt) }) s operations

def runAgentGeneration (input : RunAgentGenerationInput ρ) (s : ρ) :
    Promise (RunAgentGenerationResult × ρ) := do
  let s ← input.onEvent s
    { type := .agentStep, message := "Planning project changes"
      payload := some (.step .planning none) }
  let planned ← settle (input.modelClient.generatePlan input.context)
  let s ← input.onEvent s
    { type := .agentPlan, message := planned.value.summary, payload := some (.plan planned.value) }
  let s ← input.onEvent s
    { type := .agentStep, message := "Generating React TypeScript files"
      payload := some (.step .generating none) }
  let generated ← settle (input.modelClient.generateFiles input.context planned.value)
  if input.context.mode = .edit ∧
      hasEffectiveFileChanges input.baseFiles generated.value.operations = false then
    .throw { code := .noEffectiveChanges
             message := "The model did not produce any effective file changes" }
  else do
    let packageJson := input.content.mergeProjectPackageJson input.basePackageJson generated.value
    let files ← settle (input.content.applyFileOperations input.baseFiles
      generated.value.operations input.generatedByRunId)
    let files ← settle (writeServerPackageJson input.content files packageJson
      input.generatedByRunId)
    let s ← emitFileChanges input.onEvent none s generated.value.operations
    return (⟨files, packageJson, generated.value.message,
      combineUsage planned.usage generated.usage, planned.value⟩, s)

/-- The variables of the repair loop. -/
structure RepairState where
  files : List ProjectFile
  packageJson : ProjectSnapshotPackageJson
  summary : String
  usage : Option ModelUsage
  repairAttempts : ℕ
  seenDiagnostics : List String

def validateAttempt (input : RunAgentGenerationInput ρ) (st : RepairState) (s : ρ) :
    Promise (ValidationResult × ρ) :=
  (input.validator.validate
    { runId := input.runId
      suffix := toString st.repairAttempts
      files := st.files
      sandboxScope := { input.sandboxScope with attempt := st.repairAttempts } }).execute
    input.signal (fun s progress => input.onEvent s
      { type := .validationStep, message := progress.message
        payload := some (.progress progress) }) s

def requestRepair (input : RunAgentGenerationInput ρ) (plan : AgentPlan) (st : RepairState)
    (validation : ValidationResult) : Except OrdinaryError (ModelResult GenerationResult) :=
  let repairInput : RepairInput :=
    ⟨input.context, plan, st.repairAttempts, st.files, validation⟩
  if validation.category = some .dependencyError then
    (input.modelClient.repairDependencies.getD input.modelClient.repairFiles) repairInput
  else input.modelClient.repairFiles repairInput

/-- Whether a repair changed the content of a path, or removed one. -/
def filesChanged (before after : List ProjectFile) : Bool :=
  let beforeContent (path : String) := (before.reverse.find? (·.path == path)).map (·.content)
  after.any (fun file => beforeContent file.path != some file.content) ||
    before.any fun file => !after.any (·.path == file.path)

def repairProject (input : RunAgentGenerationInput ρ) (plan : AgentPlan) (st : RepairState)
    (validation : ValidationResult) (s : ρ) : Promise (RepairState × ρ) := do
  let s ← input.onEvent s
    { type := .repairStarted
      message := "Repair attempt " ++ toString st.repairAttempts ++ " started"
      payload := some (.step .repairing (some st.repairAttempts)) }
  let repaired ← settle (requestRepair input plan st validation)
  let packageJson := input.content.mergeProjectPackageJson (some st.packageJson) repaired.value
  let files ← settle (input.content.applyFileOperations st.files repaired.value.operations
    input.generatedByRunId)
  if packageJson = st.packageJson ∧ filesChanged st.files files = false then
    .throw { code := .noEffectiveChanges
             message := "The model did not produce any effective repair changes" }
  else do
    let files ← settle (writeServerPackageJson input.content files packageJson
      input.generatedByRunId)
    let s ← input.onEvent s
      { type := .agentStep
        message := "Applied repair attempt " ++ toString st.repairAttempts
        payload := some (.step .generating (some st.repairAttempts)) }
    let s ← emitFileChanges input.onEvent (some st.repairAttempts) s repaired.value.operations
    return ({ st with
      files, packageJson
      summary := repaired.value.message
      usage := combineUsage st.usage repaired.usage }, s)

/-- One turn of the loop. `again` continues it and is absent once
`repairAttempts >= maxRepairAttempts`. -/
def validationRound (input : RunAgentGenerationInput ρ) (plan : AgentPlan)
    (again : Option (RepairState → ρ → Promise (ValidatedAgentGenerationResult × ρ)))
    (st : RepairState) (s : ρ) : Promise (ValidatedAgentGenerationResult × ρ) := do
  let s ← input.onEvent s
    { type := .validationStarted, message := "Validating generated project"
      payload := some (.step .validating (some st.repairAttempts)) }
  let (validation, s) ← validateAttempt input st s
  if validation.status = .passed ∧ validation.verification = some .simulated then do
    let _ ← input.onEvent s
      { type := .validationFailed
        message := "Project validation was simulated and is not verified"
        payload := some (.validation validation) }
    .throw { code := .validationNotVerified
             message := "Simulated Sandbox validation cannot verify a project build"
             details := some validation }
  else if validation.status = .passed then do
    let s ← input.onEvent s
      { type := .validationPassed, message := "Project validation passed"
        payload := some (.validation validation) }
    return (⟨st.files, st.packageJson, st.summary, st.usage, validation, st.repairAttempts⟩, s)
  else do
    let s ← input.onEvent s
      { type := .validationFailed, message := "Project validation failed"
        payload := some (.validation validation) }
    if validation.category = some .infraError then
      .throw { code := .validationInfraError
               message := "Validation environment is temporarily unavailable"
               details := some validation
               candidate := some ⟨st.files, st.packageJson, st.summary⟩ }
    else
      let failureFingerprint := input.content.diagnosticFingerprint validation
      if st.seenDiagnostics.contains failureFingerprint then
        .throw { code := .repeatedValidationFailure
                 message := "Validation repair repeated the same failure"
                 details := some validation }
      else match again with
        | none =>
          .throw { code := .validationFailed
                   message := "Generated project failed validation"
                   details := some validation }
        | some again => do
          let (st, s) ← repairProject input plan
            { st with
              repairAttempts := st.repairAttempts + 1
              seenDiagnostics := failureFingerprint :: st.seenDiagnostics } validation s
          again st s

/-- The loop with `remaining = maxRepairAttempts - repairAttempts` repairs to go. -/
def repairLoop (input : RunAgentGenerationInput ρ) (plan : AgentPlan) :
    ℕ → RepairState → ρ → Promise (ValidatedAgentGenerationResult × ρ)
  | 0 => validationRound input plan none
  | remaining + 1 => validationRound input plan (some (repairLoop input plan remaining))

def runAgentGenerationWithValidation (input : RunAgentGenerationInput ρ) (s : ρ) :
    Promise (ValidatedAgentGenerationResult × ρ) := do
  let (generated, s) ← runAgentGeneration input s
  repairLoop input generated.plan input.maxRepairAttempts
    ⟨generated.files, generated.packageJson, generated.summary, generated.usage, 0, []⟩ s

end AppBuilder.Agent
