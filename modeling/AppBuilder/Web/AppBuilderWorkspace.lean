import AppBuilder.Web.ChatTimeline
import Mathlib.Data.List.TakeDrop

/-! `GET /runs/:runId` of `routes/agent.ts`, and the steps of a run that
`apps/web/src/lib/appBuilderWorkspace.ts` shows. -/
namespace AppBuilder.Web
open Agent Store Encoding Workspaces

section Route

/-- The body of a `GET /runs/:runId` that succeeds. -/
structure ServedRun where
  run : TimelineRun
  events : List AgentEvent
  resultSnapshot : Option ProjectSnapshot
  deriving DecidableEq

/-- `AgentEvent.find({ runId, userId }).sort({ sequence: 1 })` -/
def findEvents (db : Database) (runId userId : ObjectId) : List AgentEvent :=
  (db.events.filter fun e => e.runId = runId && e.userId = userId).mergeSort
    fun a b => a.sequence ≤ b.sequence

def EVENT_LIMIT : ℕ := 100

def findResultSnapshot (db : Database) (run : TimelineRun) (userId : ObjectId) :
    Option ProjectSnapshot :=
  run.resultSnapshotId.bind fun id => db.snapshots.find? fun s =>
    s._id = id && s.userId = userId && some s.workspaceId = run.workspaceId &&
      s.projectId = run.projectId && some s.branchId = run.branchId

def getRun (call : Call) (id : Text) (db : Database) : Except Response ServedRun :=
  match castObjectId id with
  | none => .error castError
  | some runId =>
    match db.runs.find? fun r => r._id = runId && r.userId = call.userId with
    | none => .error (errorResponse 404 "Run not found")
    | some run =>
      if (findOwnedWorkspaceProject db run.projectId call.userId).isNone then
        .error (errorResponse 404 "Run not found")
      else
        let events := (findEvents db runId call.userId).take EVENT_LIMIT
        let resultSnapshot := findResultSnapshot db run call.userId
        match resultSnapshot.bind call.bundleError with
        | some response => .error response
        | none => .ok ⟨run, events, resultSnapshot⟩

end Route

section Client

inductive GenerationStatus where
  | idle
  | running
  | ready
  | failed
  | cancelled
  deriving DecidableEq

inductive StepStatus where
  | done
  | active
  | pending
  deriving DecidableEq

structure GenerationStep where
  id : Text
  label : String
  detail : String
  status : StepStatus
  deriving DecidableEq

structure AgentEventSummary where
  type : AgentEventType
  message : String
  sequence : ℕ
  payload : Option EventPayload
  deriving DecidableEq

/-- A check of a failed validation. Of its `stylingIssues` the messages are read. -/
structure SnapshotValidationCheck where
  status : Option CheckStatus
  exitCode : Option ℕ
  stdout : Text
  stderr : Text
  stylingIssues : List Text
  deriving DecidableEq

structure RunError where
  message : Option Text
  checks : List SnapshotValidationCheck
  deriving DecidableEq

structure AgentRunSummary where
  _id : Text
  status : AgentRunStatus
  error : Option RunError
  deriving DecidableEq

structure ResultSnapshot where
  _id : Text
  summary : String
  files : List ProjectFile
  packageJson : ProjectSnapshotPackageJson
  validation : ValidationResult
  deriving DecidableEq

structure AgentRunDetail where
  run : AgentRunSummary
  events : List AgentEventSummary
  resultSnapshot : Option ResultSnapshot
  deriving DecidableEq

structure WorkspaceSnapshot where
  id : Text
  summary : String
  files : List ProjectFile
  selectedFilePath : Option String
  packageJson : ProjectSnapshotPackageJson
  validation : ValidationResult
  deriving DecidableEq

structure Generation where
  status : GenerationStatus
  runId : Option Text
  error : Option Text
  warning : Option String
  steps : List GenerationStep
  deriving DecidableEq

structure WorkspaceState where
  generation : Generation
  snapshot : Option WorkspaceSnapshot
  deriving DecidableEq

def toWorkspaceSnapshot (snapshot : ResultSnapshot) : WorkspaceSnapshot where
  id := snapshot._id
  summary := snapshot.summary
  files := snapshot.files
  selectedFilePath := ((snapshot.files.find? (·.path = "src/App.tsx")).or
    snapshot.files.head?).map (·.path)
  packageJson := snapshot.packageJson
  validation := snapshot.validation

/-- The type of an event as it is stored and streamed. -/
def eventTypeName : AgentEventType → String
  | .runCreated => "run.created"
  | .runStarted => "run.started"
  | .agentStep => "agent.step"
  | .agentPlan => "agent.plan"
  | .fileChanged => "file.changed"
  | .validationStarted => "validation.started"
  | .validationStep => "validation.step"
  | .validationFailed => "validation.failed"
  | .validationPassed => "validation.passed"
  | .repairStarted => "repair.started"
  | .runCompleted => "run.completed"
  | .runFailed => "run.failed"
  | .runCancelled => "run.cancelled"

def eventTypeLabels : AgentEventType → Option String
  | .runCreated => some "Run queued"
  | .runStarted => some "Worker started"
  | .agentPlan => some "Plan ready"
  | .fileChanged => some "File changed"
  | .validationStarted => some "Validating generated project"
  | .validationFailed => some "Validation failed"
  | .validationPassed => some "Validation passed"
  | .repairStarted => some "Repairing generated project"
  | .runCompleted => some "Snapshot ready"
  | .runFailed => some "Generation failed"
  | .runCancelled => some "Generation cancelled"
  | .agentStep | .validationStep => none

def workPhaseName : WorkPhase → String
  | .planning => "planning"
  | .generating => "generating"
  | .validating => "validating"
  | .repairing => "repairing"

def validationPhaseName : ValidationPhase → String
  | .structural => "structure"
  | .dependencies => "dependencies"
  | .typeCheck => "type-check"
  | .build => "build"

def phaseLabels (phase : String) : Option String :=
  [("planning", "Planning project changes"), ("generating", "Generating application files"),
    ("validating", "Validating generated project"), ("repairing", "Repairing generated project"),
    ("persisting", "Saving generated snapshot")].lookup phase

/-- `event.payload?.phase` -/
def payloadPhase : EventPayload → Option String
  | .step phase _ => some (workPhaseName phase)
  | .progress event => some (validationPhaseName event.phase)
  | _ => none

/-- `event.payload?.path` -/
def payloadPath : EventPayload → Option String
  | .fileChanged _ path _ => some path
  | _ => none

def stepId (sequence : ℕ) (type : AgentEventType) : Text :=
  Nat.toDigits 10 sequence ++ ':' :: (eventTypeName type).toList

def mapEventToStep (event : AgentEventSummary) : GenerationStep where
  id := stepId event.sequence event.type
  label :=
    if event.type = .fileChanged then event.message
    else match event.payload.bind payloadPhase with
      | some phase => (phaseLabels phase).getD event.message
      | none => (eventTypeLabels event.type).getD event.message
  detail := (nonempty (event.payload.bind payloadPath)).getD event.message
  status := .active

/-- The first line with something in it. -/
def firstLine (outputs : List Text) : Option Text :=
  ((outputs.flatMap (List.splitOn '\n')).map trim).find? (· ≠ [])

def conciseEventMessage (message : String) : Text :=
  (firstLine [message.toList]).getD (text "Generation failed")

def applyAgentEvent (state : WorkspaceState) (runId : Text) (event : AgentEventSummary) :
    WorkspaceState :=
  if state.generation.runId ≠ some runId then state
  else
    let step := mapEventToStep event
    if state.generation.steps.any (·.id = step.id) then state
    else
      let status := match event.type with
        | .runCompleted => GenerationStatus.ready
        | .runCancelled => .cancelled
        | .runFailed => .failed
        | _ => .running
      let previousSteps := state.generation.steps.map fun existing =>
        { existing with status := if existing.status = .active then .done else existing.status }
      { state with generation :=
        { state.generation with
          status := status
          error := if event.type = .runFailed then some (conciseEventMessage event.message) else none
          steps := previousSteps ++ [step] } }

def failedCheck (error : RunError) : Option SnapshotValidationCheck :=
  error.checks.find? fun check => check.status = some .failed || check.exitCode.any (· ≠ 0)

/-- The message that is shown of a failed run. -/
def runErrorMessage (error : Option RunError) : Text :=
  let check := error.bind failedCheck
  let diagnostic := (check.bind (·.stylingIssues.head?)).or
    (check.bind fun check => firstLine [check.stderr, check.stdout])
  (diagnostic.or (error.bind (·.message))).getD (text "Generation failed")

def conflictWarning : String :=
  "代码已通过验证并保存，但当前分支已变化，因此未更新当前分支。"

def applyAgentRunDetail (state : WorkspaceState) (detail : AgentRunDetail) : WorkspaceState :=
  if state.generation.runId.any fun runId => runId ≠ [] && runId ≠ detail.run._id then state
  else
    { generation :=
        { status :=
            if isCompletedStatus detail.run.status then .ready
            else if detail.run.status = .cancelled then .cancelled
            else if detail.run.status = .failed then .failed
            else .running
          runId := some detail.run._id
          error :=
            if detail.run.status = .failed then some (runErrorMessage detail.run.error) else none
          warning :=
            if detail.run.status = .completedWithConflict then some conflictWarning else none
          steps :=
            if detail.events ≠ [] then detail.events.map mapEventToStep
            else state.generation.steps }
      snapshot := (detail.resultSnapshot.map toWorkspaceSnapshot).or state.snapshot }

end Client

section Log

variable {call : Call} {db : Database} {id : Text} {served : ServedRun} {detail : AgentRunDetail}
  {state : WorkspaceState} {log : List AgentEvent}

/-- All events of a run, in the order of their numbers. -/
def eventLog (db : Database) (runId : ObjectId) : List AgentEvent :=
  (db.events.filter fun e => e.runId = runId).mergeSort fun a b => a.sequence ≤ b.sequence

/-- What the stream and the answer of the route tell the client of an event. -/
def summarize (event : AgentEvent) : AgentEventSummary :=
  ⟨event.type, event.message, event.sequence, event.payload⟩

structure IsDetail (detail : AgentRunDetail) (served : ServedRun) : Prop where
  _id : detail.run._id = toHexString served.run._id
  status : detail.run.status = served.run.status
  events : detail.events = served.events.map summarize

/-- The index of the events is unique, and whoever writes one names the run's user. -/
structure OwnEvents (db : Database) (run : TimelineRun) : Prop where
  numbered : ((db.events.filter fun e => e.runId = run._id).map (·.sequence)).Nodup
  owned : ∀ e ∈ db.events, e.runId = run._id → e.userId = run.userId

def eventIds (log : List AgentEvent) : List Text := log.map fun e => stepId e.sequence e.type

/-- Each event of the log has its one step, and the steps have the order of the log. -/
def ShowsLog (steps : List GenerationStep) (log : List AgentEvent) : Prop :=
  (steps.map (·.id)).filter (eventIds log).contains = eventIds log

/-- `applyAgentEvent` for each event of the stream. -/
def applyStream (state : WorkspaceState) (runId : Text) (log : List AgentEvent) : WorkspaceState :=
  log.foldl (fun state event => applyAgentEvent state runId (summarize event)) state

theorem stepId_sequence {m n : ℕ} {type type' : AgentEventType}
    (h : stepId m type = stepId n type') : m = n := by
  have hdigits : ∀ (k : ℕ) (rest : Text),
      (Nat.toDigits 10 k ++ ':' :: rest).takeWhile (·.isDigit) = Nat.toDigits 10 k := by
    intro k rest
    rw [List.takeWhile_append_of_pos fun c hc => Nat.isDigit_of_mem_toDigits (by decide) (by decide) hc]
    simp
  have htake := congrArg (List.takeWhile (·.isDigit)) h
  rw [stepId, stepId, hdigits, hdigits] at htake
  have hnumber := congrArg (Nat.ofDigitChars 10 · 0) htake
  simpa only [Nat.ofDigitChars_ten_toDigits] using hnumber

theorem nodup_eventIds (h : (log.map (·.sequence)).Nodup) : (eventIds log).Nodup := by
  have hpairs : log.Pairwise fun a b => a.sequence ≠ b.sequence := List.pairwise_map.mp h
  exact List.pairwise_map.mpr (hpairs.imp fun hne he => hne (stepId_sequence he))

@[simp] theorem runId_applyAgentEvent (state : WorkspaceState) (runId : Text)
    (event : AgentEventSummary) :
    (applyAgentEvent state runId event).generation.runId = state.generation.runId := by
  simp only [applyAgentEvent]
  split_ifs <;> rfl

theorem runId_applyStream (state : WorkspaceState) (runId : Text) (log : List AgentEvent) :
    (applyStream state runId log).generation.runId = state.generation.runId := by
  induction log generalizing state with
  | nil => rfl
  | cons event log ih => exact (ih _).trans (runId_applyAgentEvent ..)

/-- The step lemma of the stream. -/
theorem ids_applyAgentEvent {runId : Text} {event : AgentEvent}
    (hrun : state.generation.runId = some runId)
    (hnew : stepId event.sequence event.type ∉ state.generation.steps.map (·.id)) :
    (applyAgentEvent state runId (summarize event)).generation.steps.map (·.id) =
      state.generation.steps.map (·.id) ++ [stepId event.sequence event.type] := by
  have hany : (state.generation.steps.any fun step =>
      step.id = (mapEventToStep (summarize event)).id) = false := by
    rw [List.any_eq_false]
    intro step hs he
    exact hnew (List.mem_map.mpr ⟨step, hs, of_decide_eq_true he⟩)
  simp only [applyAgentEvent, hrun, ne_eq, not_true_eq_false, if_false, hany, Bool.false_eq_true]
  simp [mapEventToStep, summarize, Function.comp_def]

/-- The run lemma: the stream adds the steps of its events to those that were there. -/
theorem ids_applyStream {runId : Text} (hrun : state.generation.runId = some runId)
    (hlog : (eventIds log).Nodup)
    (hnew : ∀ id ∈ eventIds log, id ∉ state.generation.steps.map (·.id)) :
    (applyStream state runId log).generation.steps.map (·.id) =
      state.generation.steps.map (·.id) ++ eventIds log := by
  induction log generalizing state with
  | nil => simp [applyStream, eventIds]
  | cons event log ih =>
    obtain ⟨hevent, hrest⟩ := List.nodup_cons.mp hlog
    have hids := ids_applyAgentEvent hrun (hnew _ List.mem_cons_self)
    have hafter : ∀ id ∈ eventIds log,
        id ∉ (applyAgentEvent state runId (summarize event)).generation.steps.map (·.id) := by
      intro id hid
      rw [hids, List.mem_append, not_or]
      refine ⟨hnew id (.tail _ hid), fun he => ?_⟩
      rw [List.mem_singleton.mp he] at hid
      exact hevent hid
    have hstream := ih ((runId_applyAgentEvent ..).trans hrun) hrest hafter
    rw [applyStream, List.foldl_cons, ← applyStream, hstream, hids, List.append_assoc]
    rfl

/-- A log of any length is shown as it is streamed. -/
theorem applyStream_showsLog {runId : Text} (hrun : state.generation.runId = some runId)
    (hlog : (log.map (·.sequence)).Nodup)
    (hnew : ∀ id ∈ eventIds log, id ∉ state.generation.steps.map (·.id)) :
    ShowsLog (applyStream state runId log).generation.steps log := by
  rw [ShowsLog, ids_applyStream hrun (nodup_eventIds hlog) hnew, List.filter_append]
  have hbefore : (state.generation.steps.map (·.id)).filter (eventIds log).contains = [] := by
    rw [List.filter_eq_nil_iff]
    intro id hid hcontains
    exact hnew id (List.contains_iff_mem.mp hcontains) hid
  rw [hbefore, List.nil_append, List.filter_eq_self]
  exact fun id hid => List.contains_iff_mem.mpr hid

/-- A run is served with the first events of its log. -/
theorem getRun_events (h : getRun call id db = .ok served) (hown : OwnEvents db served.run) :
    served.events = (eventLog db served.run._id).take EVENT_LIMIT := by
  unfold getRun at h
  split at h
  · cases h
  next _ runId hcast =>
    split at h
    · cases h
    next _ run hrun =>
      have hfound := List.find?_some hrun
      simp only [Bool.and_eq_true, decide_eq_true_eq] at hfound
      split_ifs at h
      dsimp only at h
      split at h
      · cases h
      · cases h
        have hevents : (db.events.filter fun e => e.runId = runId && e.userId = call.userId) =
            db.events.filter fun e => e.runId = run._id := by
          refine List.filter_congr fun e he => ?_
          by_cases hid : e.runId = run._id
          · have huser := (hown.owned e he hid).trans hfound.2
            simp [hid, huser, hfound.1]
          · have hother : e.runId ≠ runId := fun h' => hid (h'.trans hfound.1.symm)
            simp [hid, hother]
        exact congrArg (fun events : List AgentEvent =>
          (events.mergeSort fun a b => a.sequence ≤ b.sequence).take EVENT_LIMIT) hevents

/-- The steps after the detail, once the run has events. -/
theorem ids_applyAgentRunDetail (h : getRun call id db = .ok served)
    (hown : OwnEvents db served.run) (hdetail : IsDetail detail served)
    (hstate : state.generation.runId = some detail.run._id)
    (hlog : eventLog db served.run._id ≠ []) :
    (applyAgentRunDetail state detail).generation.steps.map (·.id) =
      (eventIds (eventLog db served.run._id)).take EVENT_LIMIT := by
  have hevents := getRun_events h hown
  have hsome : detail.events ≠ [] := by
    rw [hdetail.events, hevents, ne_eq, List.map_eq_nil_iff, List.take_eq_nil_iff, not_or]
    exact ⟨by decide, hlog⟩
  have hsame : ¬ (state.generation.runId.any fun runId =>
      runId ≠ [] && runId ≠ detail.run._id) = true := by
    simp [hstate]
  rw [applyAgentRunDetail, if_neg hsame]
  dsimp only
  rw [if_pos hsome, hdetail.events, hevents, eventIds, ← List.map_take, List.map_map, List.map_map]
  rfl

/-- The steps show the whole log exactly when it fits into the route's answer. -/
theorem detail_showsLog_iff (h : getRun call id db = .ok served)
    (hown : OwnEvents db served.run) (hdetail : IsDetail detail served)
    (hstate : state.generation.runId = some detail.run._id) :
    ShowsLog (applyAgentRunDetail
      (applyStream state detail.run._id (eventLog db served.run._id)) detail).generation.steps
      (eventLog db served.run._id) ↔ (eventLog db served.run._id).length ≤ 100 := by
  by_cases hlog : eventLog db served.run._id = []
  · rw [hlog]
    simp [ShowsLog, eventIds]
  · have hids := ids_applyAgentRunDetail h hown hdetail
      ((runId_applyStream state detail.run._id (eventLog db served.run._id)).trans hstate) hlog
    rw [ShowsLog, hids, List.filter_eq_self.mpr fun id hid =>
      List.contains_iff_mem.mpr (List.mem_of_mem_take hid), List.take_eq_self_iff, eventIds,
      List.length_map]
    rfl

end Log

/-! A run of `length` events, and its client. -/

def loggedRun : TimelineRun where
  _id := 5
  userId := 1
  workspaceId := some 3
  projectId := 2
  branchId := some 4
  chatId := none
  prompt := "Build a shop"
  status := .completed
  mode := .create
  baseSnapshotId := none
  baseSnapshotRevision := 0
  baseHeadVersion := some 0
  resultSnapshotId := none
  retryOfRunId := none
  validationCandidateId := none
  retryable := false
  attempt := 0
  maxRepairAttempts := 2
  error := none
  usage := none
  startedAt := none
  completedAt := none
  attachments := []
  modelId := none
  modelProvider := none
  model := "deepseek-v4-flash"
  createdAt := 0

def loggedProject : Workspaces.Project where
  _id := 2
  workspaceId := some 3
  userId := 1
  name := text "Shop"
  description := none
  chatIds := []
  activeSnapshotId := none
  activeSnapshotRevision := 0
  settings := ⟨.react, .tailwind, .none, none⟩
  updatedAt := 0

def loggedEvent (n : ℕ) : AgentEvent :=
  ⟨100 + n, 5, 1, 2, .fileChanged, n, "create src/Page.tsx", none, 0⟩

def loggedDatabase (length : ℕ) : Database :=
  { Database.empty with
    members := [⟨3, 1, .owner⟩]
    projects := [loggedProject]
    runs := [loggedRun]
    events := (List.range length).map loggedEvent }

def loggedCall : Call := ⟨1, 0, [], [], [], fun _ => none, ⟨fun _ => none, fun _ => []⟩⟩

def loggedAnswer (length : ℕ) : ServedRun :=
  ⟨loggedRun, (findEvents (loggedDatabase length) 5 1).take EVENT_LIMIT, none⟩

def loggedDetail (length : ℕ) : AgentRunDetail :=
  ⟨⟨toHexString 5, .completed, none⟩, (loggedAnswer length).events.map summarize, none⟩

def loggedState : WorkspaceState :=
  ⟨⟨.running, some (toHexString 5), none, none,
    [⟨text "run.created", "Run queued", "Waiting for the TypeScript agent worker.", .active⟩]⟩, none⟩

theorem getRun_logged (length : ℕ) :
    getRun loggedCall (toHexString 5) (loggedDatabase length) = .ok (loggedAnswer length) := by
  have hcast : castObjectId (toHexString 5) = some 5 := castObjectId_toHexString (by decide)
  rw [getRun, hcast]
  rfl

theorem ownEvents_logged (length : ℕ) : OwnEvents (loggedDatabase length) loggedRun := by
  have hmine : ∀ e ∈ (loggedDatabase length).events, e.runId = 5 ∧ e.userId = 1 := by
    intro e he
    obtain ⟨n, -, rfl⟩ := List.mem_map.mp he
    exact ⟨rfl, rfl⟩
  refine ⟨?_, fun e he _ => (hmine e he).2⟩
  have hall : (loggedDatabase length).events.filter (fun e => e.runId = loggedRun._id) =
      (loggedDatabase length).events :=
    List.filter_eq_self.mpr fun e he => decide_eq_true (hmine e he).1
  have hnumbers : (loggedDatabase length).events.map (·.sequence) = List.range length := by
    rw [loggedDatabase, List.map_map]
    exact List.map_id _
  rw [hall, hnumbers]
  exact List.nodup_range

theorem isDetail_logged (length : ℕ) : IsDetail (loggedDetail length) (loggedAnswer length) :=
  ⟨rfl, rfl, rfl⟩

theorem length_eventLog_logged (length : ℕ) :
    (eventLog (loggedDatabase length) 5).length = length := by
  rw [eventLog, List.length_mergeSort, List.filter_eq_self.mpr, loggedDatabase, List.length_map,
    List.length_range]
  intro e he
  obtain ⟨n, -, rfl⟩ := List.mem_map.mp he
  rfl

/-- A run of three events is shown as a whole. -/
theorem three_events_shown : ShowsLog (applyAgentRunDetail (applyStream loggedState (toHexString 5)
    (eventLog (loggedDatabase 3) 5)) (loggedDetail 3)).generation.steps
    (eventLog (loggedDatabase 3) 5) :=
  (detail_showsLog_iff (getRun_logged 3) (ownEvents_logged 3) (isDetail_logged 3) rfl).mpr (by
    rw [show (loggedAnswer 3).run._id = 5 from rfl, length_eventLog_logged]
    decide)

/-- The last of 101 events is lost when the detail comes in. -/
theorem last_event_lost : ¬ ∀ (call : Call) (db : Database) (id : Text) (served : ServedRun)
    (detail : AgentRunDetail) (state : WorkspaceState), getRun call id db = .ok served →
    OwnEvents db served.run → IsDetail detail served →
    state.generation.runId = some detail.run._id →
    ShowsLog (applyAgentRunDetail
      (applyStream state detail.run._id (eventLog db served.run._id)) detail).generation.steps
      (eventLog db served.run._id) := by
  intro h
  have hshown := h loggedCall (loggedDatabase 101) (toHexString 5) (loggedAnswer 101)
    (loggedDetail 101) loggedState (getRun_logged 101) (ownEvents_logged 101) (isDetail_logged 101)
    rfl
  have hlength := length_eventLog_logged 101
  have hlog : eventLog (loggedDatabase 101) 5 ≠ [] := by
    intro he
    rw [he] at hlength
    cases hlength
  have hids := ids_applyAgentRunDetail (getRun_logged 101) (ownEvents_logged 101)
    (isDetail_logged 101) ((runId_applyStream loggedState (toHexString 5)
      (eventLog (loggedDatabase 101) 5)).trans rfl) hlog
  have hcounts := congrArg List.length hshown
  rw [show (loggedAnswer 101).run._id = 5 from rfl] at hids hcounts
  have hfewer := (List.length_filter_le (eventIds (eventLog (loggedDatabase 101) 5)).contains
    ((eventIds (eventLog (loggedDatabase 101) 5)).take EVENT_LIMIT))
  rw [show (loggedDetail 101).run._id = toHexString 5 from rfl, hids] at hcounts
  rw [hcounts, List.length_take, eventIds, List.length_map, hlength] at hfewer
  exact absurd hfewer (by decide)

end AppBuilder.Web
