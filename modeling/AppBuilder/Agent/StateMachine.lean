import AppBuilder.Agent.Types

/-! The transitions of a run that `agent/stateMachine.ts` allows. -/
namespace AppBuilder.Agent

def allowedTransitions : AgentRunStatus → List AgentRunStatus
  | .waitingForCapacity => [.queued, .cancelled]
  | .queued => [.waitingForCapacity, .running, .cancelled]
  | .running => [.planning, .validating, .cancelled, .failed]
  | .planning => [.generating, .cancelled, .failed]
  | .generating => [.validating, .cancelled, .failed]
  | .validating => [.repairing, .persisting, .failed, .cancelled]
  | .repairing => [.generating, .failed, .cancelled]
  | .persisting => [.completed, .completedWithConflict, .failed]
  | .completed => []
  | .completedWithConflict => []
  | .failed => []
  | .cancelled => []

def isTerminalAgentRunStatus (status : AgentRunStatus) : Bool :=
  terminalAgentRunStatuses.contains status

def canTransitionAgentRun (source target : AgentRunStatus) : Bool :=
  (allowedTransitions source).contains target

/-- `assertAgentRunTransition`: the error thrown for a transition that is not allowed. -/
def assertAgentRunTransition (source target : AgentRunStatus) : Except AgentError Unit :=
  if canTransitionAgentRun source target then .ok ()
  else .error
    { code := .none
      message := "Invalid AgentRun status transition: " ++ source.name ++ " -> " ++ target.name }

/-- The statuses at or after the switch to `persisting`. -/
def AgentRunStatus.isPersisted : AgentRunStatus → Bool
  | .persisting | .completed | .completedWithConflict | .failed => true
  | _ => false

/-- The statuses in which a worker holds a run before it persists the result. -/
def AgentRunStatus.isWorking : AgentRunStatus → Bool
  | .running | .planning | .generating | .validating | .repairing => true
  | _ => false

theorem terminal_no_transition {source target : AgentRunStatus}
    (h : isTerminalAgentRunStatus source = true) : canTransitionAgentRun source target = false := by
  cases source <;> first | rfl | cases h

/-- Only a run that is neither terminal nor persisting may still be cancelled. -/
theorem canTransition_cancelled_iff (source : AgentRunStatus) :
    canTransitionAgentRun source .cancelled = true ↔
      isTerminalAgentRunStatus source = false ∧ source ≠ .persisting := by
  cases source <;> decide

end AppBuilder.Agent
