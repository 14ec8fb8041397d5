import AppBuilder.Workspaces.ChatRoutes

/-! `apps/web/src/lib/chatTimeline.ts`: the turns that the client has loaded. -/
namespace AppBuilder.Web
open Agent Encoding Workspaces

structure ChatTimelineResponse where
  turns : List ChatTimelineTurn
  pageInfo : PageInfo
  deriving DecidableEq

structure ChatTimelineState where
  turns : List ChatTimelineTurn
  expandedRunIds : List Text
  loading : Bool
  loadingOlder : Bool
  error : Option String
  pageInfo : PageInfo
  deriving DecidableEq

/-- The run as the API returns it. -/
structure ApiRun where
  _id : Text
  retryOfRunId : Option Text
  prompt : String
  attachments : List AgentAttachment
  status : AgentRunStatus
  modelId : Option String
  modelProvider : Option String
  model : Option String
  startedAt : Option Text
  completedAt : Option Text
  error : Option AgentErrorPayload
  createdAt : Option Text

def activeStatuses : List AgentRunStatus :=
  [.waitingForCapacity, .queued, .running, .planning, .generating, .validating, .repairing,
    .persisting]

def isCompletedStatus (status : AgentRunStatus) : Bool :=
  status = .completed || status = .completedWithConflict

def createTimelineState : ChatTimelineState := ⟨[], [], false, false, none, ⟨false, none⟩⟩

/-- `set.add(runId)` -/
def addRunId (runIds : List Text) (runId : Text) : List Text :=
  if runIds.contains runId then runIds else runIds ++ [runId]

def needsAttention (turn : ChatTimelineTurn) : Bool :=
  turn.agent.status = .failed || activeStatuses.contains turn.agent.status

def resolveDefaultExpandedRunIds (turns : List ChatTimelineTurn) : List Text :=
  let latestCompleted := turns.reverse.find? fun turn => isCompletedStatus turn.agent.status
  let expanded := (latestCompleted.map (·.runId)).toList
  ((turns.filter needsAttention).map (·.runId)).foldl addRunId expanded

def replaceTimelinePage (state : ChatTimelineState) (response : ChatTimelineResponse) :
    ChatTimelineState :=
  { state with
    turns := response.turns
    expandedRunIds := resolveDefaultExpandedRunIds response.turns
    loading := false
    loadingOlder := false
    error := none
    pageInfo := response.pageInfo }

/-- `map.set(turn.runId, turn)`: a key that is there keeps its place. -/
def setTurn (turns : List ChatTimelineTurn) (turn : ChatTimelineTurn) : List ChatTimelineTurn :=
  if turns.any (·.runId = turn.runId) then
    turns.map fun t => if t.runId = turn.runId then turn else t
  else turns ++ [turn]

/-- The comparison by `Date.parse`. A difference that is `NaN` counts as 0. -/
def createdBefore (runtime : Runtime) (left right : ChatTimelineTurn) : Bool :=
  match Date.parse runtime.parseDate left.userMessage.createdAt,
    Date.parse runtime.parseDate right.userMessage.createdAt with
  | some a, some b => a ≤ b
  | _, _ => true

def mergeOlderTimelinePage (runtime : Runtime) (state : ChatTimelineState)
    (response : ChatTimelineResponse) : ChatTimelineState :=
  { state with
    turns := ((response.turns ++ state.turns).foldl setTurn []).mergeSort (createdBefore runtime)
    expandedRunIds :=
      ((response.turns.filter needsAttention).map (·.runId)).foldl addRunId state.expandedRunIds
    loadingOlder := false
    error := none
    pageInfo := response.pageInfo }

/-- The turn of a run that was just created; `now` is the time of the client. -/
def newTurn (now : Time) (run : ApiRun) : ChatTimelineTurn where
  runId := run._id
  retryOfRunId := run.retryOfRunId
  userMessage := ⟨run.prompt, run.createdAt.getD (Date.toISOString now), run.attachments⟩
  agent :=
    { status := run.status
      modelId := nonempty run.modelId
      modelProvider := nonempty run.modelProvider
      model := run.model.getD "configured model"
      startedAt := run.startedAt
      completedAt := run.completedAt
      durationMs := none
      planningDurationMs := none
      summary := none
      plan := none
      events := []
      error := (run.error.filter (·.message ≠ "")).map fun e => { e with details := none }
      retryable := none }
  snapshot := none

def insertTimelineRun (runtime : Runtime) (now : Time) (state : ChatTimelineState) (run : ApiRun) :
    ChatTimelineState :=
  if state.turns.any (·.runId = run._id) then state
  else { state with
    turns := (state.turns ++ [newTurn now run]).mergeSort (createdBefore runtime)
    expandedRunIds := addRunId state.expandedRunIds run._id }

def startTimelineLoading (state : ChatTimelineState) (older : Bool) : ChatTimelineState :=
  if older then { state with loadingOlder := true, error := none }
  else { state with loading := true, error := none }

def failTimelineLoading (state : ChatTimelineState) (error : String) : ChatTimelineState :=
  { state with loading := false, loadingOlder := false, error := some error }

end AppBuilder.Web
