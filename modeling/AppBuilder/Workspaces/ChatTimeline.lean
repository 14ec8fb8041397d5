import AppBuilder.Encoding.Base64
import AppBuilder.Encoding.Date
import AppBuilder.Encoding.Utf8
import AppBuilder.Workspaces.Documents

/-! `agent/chatTimeline.ts`: the turn of a run, and the cursor between two pages of turns. -/
namespace AppBuilder.Workspaces
open Agent Store Encoding

structure UserMessage where
  content : String
  createdAt : Text
  attachments : List AgentAttachment
  deriving DecidableEq

structure ChatTimelineEvent where
  type : AgentEventType
  sequence : ℕ
  message : String
  payload : Option EventPayload
  createdAt : Text
  deriving DecidableEq

structure TurnAgent where
  status : AgentRunStatus
  modelId : Option String
  modelProvider : Option String
  model : String
  startedAt : Option Text
  completedAt : Option Text
  durationMs : Option ℕ
  planningDurationMs : Option ℕ
  summary : Option String
  plan : Option AgentPlan
  events : List ChatTimelineEvent
  error : Option AgentErrorPayload
  retryable : Option Bool
  deriving DecidableEq

structure TurnSnapshot where
  id : Text
  summary : String
  changedFiles : List String
  deriving DecidableEq

structure ChatTimelineTurn where
  runId : Text
  retryOfRunId : Option Text
  userMessage : UserMessage
  agent : TurnAgent
  snapshot : Option TurnSnapshot
  deriving DecidableEq

structure PageInfo where
  hasMore : Bool
  nextBefore : Option Text
  deriving DecidableEq

structure TimelineCursorBoundary where
  createdAt : Time
  id : Text
  deriving DecidableEq

/-- What JavaScript makes of values no program here writes: `Date.parse` of a text that
`toISOString` does not make, and `String` of a value that is no string. -/
structure Runtime where
  parseDate : Text → Option Time
  toText : Json Json.NumberLiteral → Text

def cursorValue (boundary : TimelineCursorBoundary) : Json Json.NumberLiteral :=
  .object [(text "createdAt", .string (Date.toISOString boundary.createdAt)),
    (text "id", .string boundary.id)]

def encodeTimelineCursor (boundary : TimelineCursorBoundary) : Text :=
  ((cursorValue boundary).stringify Json.numberLiterals.print).elim [] fun s =>
    Base64.encode (Utf8.encode s)

/-- The property of a parsed value. Reading one off `null` throws. -/
def property (value : Json Json.NumberLiteral) (key : Text) : Option (Json Json.NumberLiteral) :=
  match value with
  | .null => none
  | .object members => some ((members.lookup key).getD .undefined)
  | _ => some .undefined

/-- `new Date(String(value))` -/
def dateOf (runtime : Runtime) (value : Json Json.NumberLiteral) : Option Time :=
  match value with
  | .string s => Date.parse runtime.parseDate s
  | value => Date.parse runtime.parseDate (runtime.toText value)

/-- `none` is the error `INVALID_TIMELINE_CURSOR`. -/
def decodeTimelineCursor (runtime : Runtime) (cursor : Text) : Option TimelineCursorBoundary := do
  let parsed ← Json.parse Json.numberLiterals (Utf8.decode (Base64.decode cursor))
  let createdAt ← dateOf runtime (← property parsed (text "createdAt"))
  match ← property parsed (text "id") with
  | .string id => if (castObjectId id).isSome then some ⟨createdAt, id⟩ else none
  | _ => none

def nonNegativeDuration (start stop : Option Time) : Option ℕ := do
  return (← stop) - (← start)

def planFromEvents (events : List AgentEvent) : Option (AgentPlan × AgentEvent) :=
  events.findSome? fun event =>
    match event.type, event.payload with
    | .agentPlan, some (.plan plan) => some (plan, event)
    | _, _ => none

def changedFilesFromEvents (events : List AgentEvent) : List String :=
  (events.filterMap fun event =>
    match event.type, event.payload with
    | .fileChanged, some (.fileChanged _ path _) =>
      if trim path.toList = [] then none else some path
    | _, _ => none).eraseDups

/-- The texts that JavaScript takes for true. -/
def nonempty (s : Option String) : Option String := s.filter (· ≠ "")

def buildChatTimelineTurn (run : TimelineRun) (events : List AgentEvent)
    (snapshot : Option ProjectSnapshot) : ChatTimelineTurn :=
  let events := events.mergeSort fun a b => a.sequence ≤ b.sequence
  let planned := planFromEvents events
  { runId := toHexString run._id
    retryOfRunId := run.retryOfRunId.map toHexString
    userMessage := ⟨run.prompt, Date.toISOString run.createdAt, run.attachments⟩
    agent :=
      { status := run.status
        modelId := nonempty run.modelId
        modelProvider := nonempty run.modelProvider
        model := run.model
        startedAt := run.startedAt.map Date.toISOString
        completedAt := run.completedAt.map Date.toISOString
        durationMs := nonNegativeDuration run.startedAt run.completedAt
        planningDurationMs := nonNegativeDuration run.startedAt (planned.map (·.2.createdAt))
        summary := (nonempty (snapshot.map (·.summary))).or (nonempty (planned.map (·.1.summary)))
        plan := planned.map (·.1)
        events := events.map fun e =>
          ⟨e.type, e.sequence, e.message, e.payload, Date.toISOString e.createdAt⟩
        error := run.error
        retryable := some run.retryable }
    snapshot := snapshot.map fun s =>
      ⟨toHexString s._id, s.summary, changedFilesFromEvents events⟩ }

end AppBuilder.Workspaces
