import Mathlib.Algebra.GroupWithZero.Nat
import Mathlib.Data.Nat.Notation

/-! Statuses, events, errors and the data of a generation, as `agent/types.ts` has them. -/
namespace AppBuilder.Agent

abbrev ObjectId := ℕ
/-- Milliseconds since the epoch. -/
abbrev Time := ℕ

inductive AgentRunStatus where
  | waitingForCapacity
  | queued
  | running
  | planning
  | generating
  | validating
  | repairing
  | persisting
  | completed
  | completedWithConflict
  | failed
  | cancelled
  deriving DecidableEq, Repr

/-- The status as it is stored and as messages spell it. -/
def AgentRunStatus.name : AgentRunStatus → String
  | .waitingForCapacity => "waiting_for_capacity"
  | .queued => "queued"
  | .running => "running"
  | .planning => "planning"
  | .generating => "generating"
  | .validating => "validating"
  | .repairing => "repairing"
  | .persisting => "persisting"
  | .completed => "completed"
  | .completedWithConflict => "completed_with_conflict"
  | .failed => "failed"
  | .cancelled => "cancelled"

def terminalAgentRunStatuses : List AgentRunStatus :=
  [.completed, .completedWithConflict, .failed, .cancelled]

inductive AgentRunMode where
  | create
  | edit
  deriving DecidableEq, Repr

inductive AgentEventType where
  | runCreated
  | runStarted
  | agentStep
  | agentPlan
  | fileChanged
  | validationStarted
  | validationStep
  | validationFailed
  | validationPassed
  | repairStarted
  | runCompleted
  | runFailed
  | runCancelled
  deriving DecidableEq, Repr

/-- The events on which a client stops streaming. -/
def AgentEventType.isTerminal : AgentEventType → Bool
  | .runCompleted | .runFailed | .runCancelled => true
  | _ => false

/-- The `code` of a thrown error. `none` is an `Error` without one, `duplicateKey` is the
database's 11000 and `storage` any other failure of a driver. -/
inductive ErrorCode where
  | projectNotFound
  | invalidChatBranch
  | branchExecutionLost
  | invalidBaseSnapshot
  | invalidModelOutput
  | modelRequestFailed
  | modelConfigurationError
  | modelConfigurationMismatch
  | modelNotAvailable
  | noEffectiveChanges
  | repeatedValidationFailure
  | validationInfraError
  | validationNotVerified
  | validationFailed
  | validationCandidateNotFound
  | validationCandidateExpired
  | artifactStoreUnavailable
  | artifactWriteFailed
  | artifactNotFound
  | artifactCorrupt
  | artifactFormatUnsupported
  | artifactLimitExceeded
  | artifactInvalidPath
  | artifactInvalidBundle
  | artifactIdempotencyConflict
  | agentRunFailed
  | runCancelled
  | completionEventFailed
  | invalidBranchBaseline
  | projectBranchNotFound
  | workspaceError
  | duplicateKey
  | storage
  | delayed
  | none
  deriving DecidableEq, Repr

inductive ProjectFileLanguage where
  | ts
  | tsx
  | js
  | css
  | json
  | html
  | md
  deriving DecidableEq, Repr

structure ProjectFile where
  path : String
  content : String
  language : ProjectFileLanguage
  generatedByRunId : Option ObjectId
  deriving DecidableEq, Repr

structure ProjectSnapshotPackageJson where
  dependencies : List (String × String)
  devDependencies : List (String × String)
  scripts : List (String × String)
  deriving DecidableEq, Repr

inductive ValidationPhase where
  | structural
  | dependencies
  | typeCheck
  | build
  deriving DecidableEq, Repr

inductive ValidationErrorCategory where
  | codeError
  | dependencyError
  | infraError
  | stylingConfigurationError
  deriving DecidableEq, Repr

inductive CheckStatus where
  | passed
  | failed
  | retrying
  | skipped
  deriving DecidableEq, Repr

structure ValidationCheckResult where
  phase : ValidationPhase
  status : CheckStatus
  category : Option ValidationErrorCategory
  exitCode : Option ℕ
  stdout : String
  stderr : String
  deriving DecidableEq, Repr

inductive ValidationStatus where
  | passed
  | failed
  | skipped
  deriving DecidableEq, Repr

inductive Verification where
  | verified
  | simulated
  deriving DecidableEq, Repr

structure ValidationResult where
  status : ValidationStatus
  verification : Option Verification
  previewArtifactId : Option ObjectId
  checks : List ValidationCheckResult
  category : Option ValidationErrorCategory
  deriving DecidableEq, Repr

inductive FileOperation where
  | create (path content : String)
  | update (path content : String)
  | delete (path : String)
  deriving DecidableEq, Repr

def FileOperation.path : FileOperation → String
  | .create path _ | .update path _ | .delete path => path

/-- `operation.type` as it is spelled in messages. -/
def FileOperation.type : FileOperation → String
  | .create .. => "create"
  | .update .. => "update"
  | .delete .. => "delete"

structure GenerationResult where
  message : String
  operations : List FileOperation
  dependencies : List (String × String)
  devDependencies : List (String × String)
  deriving DecidableEq, Repr

structure AgentPlan where
  summary : String
  steps : List String
  assumptions : List String
  deriving DecidableEq, Repr

structure ModelUsage where
  inputTokens : Option ℕ
  outputTokens : Option ℕ
  totalTokens : Option ℕ
  deriving DecidableEq, Repr

structure ModelResult (α : Type) where
  value : α
  usage : Option ModelUsage

structure AgentContext where
  prompt : String
  mode : AgentRunMode
  projectName : String
  messages : List String
  files : List (String × Option String)

/-- The candidate attached to a `VALIDATION_INFRA_ERROR`. -/
structure FailedCandidate where
  files : List ProjectFile
  packageJson : ProjectSnapshotPackageJson
  summary : String
  deriving DecidableEq, Repr

/-- A thrown error with the properties that some handler reads. `retryable` is the flag of an
`ArtifactError`, which is the only class that carries it. -/
structure AgentError where
  code : ErrorCode
  message : String
  details : Option ValidationResult := none
  candidate : Option FailedCandidate := none
  retryable : Option Bool := none
  deriving DecidableEq, Repr

structure AgentErrorPayload where
  code : ErrorCode
  message : String
  details : Option ValidationResult
  deriving DecidableEq, Repr

inductive WorkPhase where
  | planning
  | generating
  | validating
  | repairing
  deriving DecidableEq, Repr

structure ValidationProgressEvent where
  phase : ValidationPhase
  status : CheckStatus
  category : Option ValidationErrorCategory
  attempt : ℕ
  message : String
  deriving DecidableEq, Repr

/-- The payloads the server attaches to events. Only `step` has a `phase` that the
orchestrator tests; the `phase` of a validation progress is none of its four. -/
inductive EventPayload where
  | step (phase : WorkPhase) (attempt : Option ℕ)
  | plan (plan : AgentPlan)
  | fileChanged (operation path : String) (repairAttempt : Option ℕ)
  | validation (result : ValidationResult)
  | progress (event : ValidationProgressEvent)
  | completed (snapshotId : ObjectId) (fileCount : ℕ) (branchId : Option ObjectId)
      (branchAdvanced conflict : Bool)
  | failure (code : ErrorCode)
  deriving DecidableEq, Repr

end AppBuilder.Agent
