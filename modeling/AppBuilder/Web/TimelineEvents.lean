import AppBuilder.Web.ChatTimeline
import AppBuilder.Workspaces.TimelineTurns

/-! The events of `lib/chatTimeline.ts`: how the client brings a turn up to date. -/
namespace AppBuilder.Web
namespace TimelineEvents
open Agent Store Encoding
open Workspaces (UserMessage PageInfo Runtime nonempty)
open Workspaces.TimelineTurns

variable {N : Type}

structure ChatTimelineState (N : Type) where
  turns : List (ChatTimelineTurn N)
  expandedRunIds : List Text
  loading : Bool
  loadingOlder : Bool
  error : Option String
  pageInfo : PageInfo

/-- The comparison by `Date.parse`. A difference that is `NaN` counts as 0. -/
def createdBefore (runtime : Runtime) (left right : ChatTimelineTurn N) : Bool :=
  match Date.parse runtime.parseDate left.userMessage.createdAt,
    Date.parse runtime.parseDate right.userMessage.createdAt with
  | some a, some b => a ≤ b
  | _, _ => true

/-- The turn of a run that was just created; `now` is the time of the client. -/
def newTurn (now : Time) (run : ApiRun) : ChatTimelineTurn N where
  runId := run._id
  retryOfRunId := run.retryOfRunId
  userMessage := ⟨run.prompt, run.createdAt.getD (Date.toISOString now), run.attachments⟩
  agent :=
    { status := run.status
      modelId := nonempty run.modelId
      modelProvider := nonempty run.modelProvider
      model := run.model.getD "configured model"
      startedAt := run.startedAt
      completedAt := run.completedAt
      durationMs := none
      planningDurationMs := none
      summary := none
      plan := none
      events := []
      error := (run.error.filter (·.message ≠ "")).map fun e => ⟨some e.code, e.message, none⟩
      retryable := none }
  snapshot := none

def insertTimelineRun (runtime : Runtime) (now : Time) (state : ChatTimelineState N)
    (run : ApiRun) : ChatTimelineState N :=
  if state.turns.any (·.runId = run._id) then state
  else { state with
    turns := (state.turns ++ [newTurn now run]).mergeSort (createdBefore runtime)
    expandedRunIds := addRunId state.expandedRunIds run._id }

/-- The turns with the event, where `none` says that the state stays the one that it is. -/
def withEvent (turns : List (ChatTimelineTurn N)) (runId : Text) (event : ChatTimelineEvent N) :
    Option (ℕ × ChatTimelineTurn N) := do
  let turnIndex ← turns.findIdx? (·.runId = runId)
  let turn ← turns[turnIndex]?
  if turn.agent.events.any (·.sequence = event.sequence) then none
  else
    let events := (turn.agent.events ++ [event]).mergeSort fun a b => a.sequence ≤ b.sequence
    some (turnIndex, { turn with agent := { turn.agent with events := events } })

def appendTimelineEvent (state : ChatTimelineState N) (runId : Text)
    (event : ChatTimelineEvent N) : ChatTimelineState N :=
  match withEvent state.turns runId event with
  | none => state
  | some (turnIndex, turn) => { state with turns := state.turns.set turnIndex turn }

/-- A property of the payload, where there is one. -/
def payloadProperty (event : ChatTimelineEvent N) (key : String) : Json N :=
  property (event.payload.getD .undefined) key

def isTrue : Json N → Bool
  | .bool b => b
  | _ => false

def phases : List (Text × AgentRunStatus) :=
  [.planning, .generating, .validating, .repairing, .persisting].map fun status =>
    (text status.name, status)

def statusFromEvent (event : ChatTimelineEvent N) (current : AgentRunStatus) : AgentRunStatus :=
  if event.type = text "run.created" then .queued
  else if event.type = text "run.started" then .running
  else if event.type = text "validation.started" then .validating
  else if event.type = text "repair.started" then .repairing
  else if event.type = text "run.completed" then
    if isTrue (payloadProperty event "conflict") then .completedWithConflict else .completed
  else if event.type = text "run.failed" then .failed
  else if event.type = text "run.cancelled" then .cancelled
  else if event.type = text "agent.step" then
    match payloadProperty event "phase" with
    | .string phase => (phases.lookup phase).getD current
    | _ => current
  else current

def textOf : Json N → Option String
  | .string s => some (String.ofList s)
  | _ => none

/-- The elements of an array, where every one has the shape. -/
def arrayOf {α : Type} (shape : Json N → Option α) : Json N → Option (List α)
  | .array elements => elements.mapM shape
  | _ => none

def stepOf (step : Json N) : Option ChatTimelineStep := do
  return {
    title := ← textOf (property step "title")
    intent := ← textOf (property step "intent")
    filesLikelyTouched := ← arrayOf textOf (property step "filesLikelyTouched") }

def planFromEvent (event : ChatTimelineEvent N) : Option ChatTimelinePlan :=
  if event.type = text "agent.plan" then do
    let summary ← textOf (payloadProperty event "summary")
    let steps ← arrayOf stepOf (payloadProperty event "steps")
    let assumptions ← arrayOf textOf (payloadProperty event "assumptions")
    if steps = [] then none else some { summary, steps, assumptions }
  else none

/-- The texts that JavaScript takes for true. -/
def truthy (s : Option Text) : Option Text := s.filter (· ≠ [])

/-- `Math.max(0, Date.parse(stop) - Date.parse(start))` -/
def duration (runtime : Runtime) (start stop : Text) : Milliseconds := do
  return (← Date.parse runtime.parseDate stop) - (← Date.parse runtime.parseDate start)

def updateAgent (runtime : Runtime) (event : ChatTimelineEvent N) (agent : TurnAgent N) :
    TurnAgent N :=
  let status := statusFromEvent event agent.status
  let plan := planFromEvent event
  let startedAt :=
    truthy (if event.type = text "run.started" then some event.createdAt else agent.startedAt)
  let completedAt :=
    truthy (if isCompletedStatus status || status = .failed || status = .cancelled then
      some event.createdAt else agent.completedAt)
  { agent with
    status := status
    startedAt := startedAt.or agent.startedAt
    completedAt := completedAt.or agent.completedAt
    durationMs := match startedAt, completedAt with
      | some start, some stop => some (duration runtime start stop)
      | _, _ => agent.durationMs
    plan := plan.or agent.plan
    summary := (plan.map (·.summary)).or agent.summary
    planningDurationMs := match plan, truthy agent.startedAt with
      | some _, some start => some (duration runtime start event.createdAt)
      | _, _ => agent.planningDurationMs
    error := if status = .failed then some ⟨none, event.message, none⟩ else agent.error }

def expandAfter (runId : Text) (status : AgentRunStatus) (turns : List (ChatTimelineTurn N))
    (expandedRunIds : List Text) : List Text :=
  if isCompletedStatus status then
    let others := (turns.filter fun t => t.runId ≠ runId && isCompletedStatus t.agent.status).map
      (·.runId)
    addRunId (expandedRunIds.filter fun id => !others.contains id) runId
  else if status = .failed || activeStatuses.contains status then addRunId expandedRunIds runId
  else expandedRunIds

def applyTimelineEvent (runtime : Runtime) (runId : Text) (state : ChatTimelineState N)
    (event : ChatTimelineEvent N) : ChatTimelineState N :=
  match withEvent state.turns runId event with
  | none => state
  | some (turnIndex, turn) =>
    let turn := { turn with agent := updateAgent runtime event turn.agent }
    let turns := state.turns.set turnIndex turn
    { state with
      turns := turns
      expandedRunIds := expandAfter runId turn.agent.status turns state.expandedRunIds }

end TimelineEvents
end AppBuilder.Web
