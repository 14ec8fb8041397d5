import AppBuilder.Agent.Schemas
import AppBuilder.Workspaces.ChatTimeline

/-! The turns of `agent/chatTimeline.ts` over the payloads as they are stored, which are any JSON. -/
namespace AppBuilder.Workspaces
namespace TimelineTurns
open Agent Store Encoding

structure ChatTimelineStep where
  title : String
  intent : String
  filesLikelyTouched : List String
  deriving DecidableEq

structure ChatTimelinePlan where
  summary : String
  steps : List ChatTimelineStep
  assumptions : List String
  deriving DecidableEq

structure TimelineEventSource (N : Type) where
  type : Text
  sequence : ℕ
  message : String
  payload : Option (Json N)
  createdAt : Time

structure ChatTimelineEvent (N : Type) where
  type : Text
  sequence : ℕ
  message : String
  payload : Option (Json N)
  createdAt : Text

structure TurnError where
  code : Option ErrorCode
  message : String
  details : Option ValidationResult
  deriving DecidableEq

/-- The difference of two times, where `none` is `NaN`. -/
abbrev Milliseconds := Option ℕ

structure TurnAgent (N : Type) where
  status : AgentRunStatus
  modelId : Option String
  modelProvider : Option String
  model : String
  startedAt : Option Text
  completedAt : Option Text
  durationMs : Option Milliseconds
  planningDurationMs : Option Milliseconds
  summary : Option String
  plan : Option ChatTimelinePlan
  events : List (ChatTimelineEvent N)
  error : Option TurnError
  retryable : Option Bool

structure ChatTimelineTurn (N : Type) where
  runId : Text
  retryOfRunId : Option Text
  userMessage : UserMessage
  agent : TurnAgent N
  snapshot : Option TurnSnapshot

variable {N : Type}

section Schema

/-- A property of a value, where nothing is inherited. -/
def property (value : Json N) (key : String) : Json N :=
  match value with
  | .object members => (members.lookup (text key)).getD .undefined
  | _ => .undefined

/-- `z.string().trim().min(1)` -/
def stringSchema (value : Json N) : Option String :=
  match value with
  | .string s => trimmed (String.ofList s)
  | _ => none

def pathSchema (value : Json N) : Option String :=
  match value with
  | .string s => safeProjectPathSchema (String.ofList s)
  | _ => none

def arraySchema {α : Type} (schema : Json N → Option α) (value : Json N) : Option (List α) :=
  match value with
  | .array elements => elements.mapM schema
  | _ => none

/-- `.strict()` -/
def hasOnly (keys : List String) (value : Json N) : Bool :=
  match value with
  | .object members => members.all fun m => (keys.map text).contains m.1
  | _ => false

def stepSchema (value : Json N) : Option ChatTimelineStep :=
  if hasOnly ["title", "intent", "filesLikelyTouched"] value then do
    return {
      title := ← stringSchema (property value "title")
      intent := ← stringSchema (property value "intent")
      filesLikelyTouched := ← arraySchema pathSchema (property value "filesLikelyTouched") }
  else none

def agentPlanSchema (value : Json N) : Option ChatTimelinePlan :=
  if hasOnly ["summary", "steps", "assumptions"] value then do
    let summary ← stringSchema (property value "summary")
    let steps ← arraySchema stepSchema (property value "steps")
    let assumptions ← arraySchema stringSchema (property value "assumptions")
    if steps = [] then none else some { summary, steps, assumptions }
  else none

end Schema

/-- What `agentPlanSchema.safeParse` makes of the payload of a plan event. -/
def parsedPlan (event : TimelineEventSource N) : Option ChatTimelinePlan :=
  if event.type = text "agent.plan" then event.payload.bind agentPlanSchema else none

def planFromEvents (events : List (TimelineEventSource N)) :
    Option (ChatTimelinePlan × TimelineEventSource N) :=
  events.findSome? fun event => (parsedPlan event).map (·, event)

def changedPath (event : TimelineEventSource N) : Option String :=
  if event.type = text "file.changed" then
    match property (event.payload.getD .undefined) "path" with
    | .string path => if trim path = [] then none else some (String.ofList path)
    | _ => none
  else none

def changedFilesFromEvents (events : List (TimelineEventSource N)) : List String :=
  (events.filterMap changedPath).eraseDups

/-- The event as the turn shows it. -/
def TimelineEventSource.shown (event : TimelineEventSource N) : ChatTimelineEvent N :=
  ⟨event.type, event.sequence, event.message, event.payload, Date.toISOString event.createdAt⟩

def buildChatTimelineTurn (run : TimelineRun) (events : List (TimelineEventSource N))
    (snapshot : Option ProjectSnapshot) : ChatTimelineTurn N :=
  let events := events.mergeSort fun a b => a.sequence ≤ b.sequence
  let planned := planFromEvents events
  { runId := toHexString run._id
    retryOfRunId := run.retryOfRunId.map toHexString
    userMessage := ⟨run.prompt, Date.toISOString run.createdAt, run.attachments⟩
    agent :=
      { status := run.status
        modelId := nonempty run.modelId
        modelProvider := nonempty run.modelProvider
        model := run.model
        startedAt := run.startedAt.map Date.toISOString
        completedAt := run.completedAt.map Date.toISOString
        durationMs := (nonNegativeDuration run.startedAt run.completedAt).map some
        planningDurationMs :=
          (nonNegativeDuration run.startedAt (planned.map (·.2.createdAt))).map some
        summary := (nonempty (snapshot.map (·.summary))).or (nonempty (planned.map (·.1.summary)))
        plan := planned.map (·.1)
        events := events.map TimelineEventSource.shown
        error := run.error.map fun e => ⟨some e.code, e.message, e.details⟩
        retryable := some run.retryable }
    snapshot := snapshot.map fun s =>
      ⟨toHexString s._id, s.summary, changedFilesFromEvents events⟩ }

section Sorted

/-- The events of a log come in their order. -/
theorem mergeSort_of_increasing {events : List (TimelineEventSource N)}
    (h : events.Pairwise fun a b => a.sequence < b.sequence) :
    (events.mergeSort fun a b => decide (a.sequence ≤ b.sequence)) = events := by
  have hle : events.Pairwise fun a b => decide (a.sequence ≤ b.sequence) = true :=
    h.imp fun hlt => decide_eq_true (Nat.le_of_lt hlt)
  exact List.mergeSort_of_pairwise hle

theorem planFromEvents_plan (events : List (TimelineEventSource N)) :
    (planFromEvents events).map (·.1) = events.findSome? parsedPlan := by
  unfold planFromEvents
  induction events with
  | nil => rfl
  | cons event events ih =>
    rw [List.findSome?_cons, List.findSome?_cons]
    cases parsedPlan event with
    | none => exact ih
    | some plan => rfl

/-- What the turn of an increasing log shows of it. -/
theorem buildChatTimelineTurn_of_increasing (run : TimelineRun)
    {events : List (TimelineEventSource N)} (snapshot : Option ProjectSnapshot)
    (h : events.Pairwise fun a b => a.sequence < b.sequence) :
    (buildChatTimelineTurn run events snapshot).agent.events =
        events.map TimelineEventSource.shown ∧
      (buildChatTimelineTurn run events snapshot).agent.plan = events.findSome? parsedPlan := by
  have hsort := mergeSort_of_increasing h
  constructor
  · exact congrArg (List.map TimelineEventSource.shown) hsort
  · rw [← planFromEvents_plan]
    exact congrArg (fun l => (planFromEvents l).map (·.1)) hsort

end Sorted

end TimelineTurns
end AppBuilder.Workspaces
