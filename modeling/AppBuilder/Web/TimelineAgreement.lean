import AppBuilder.Web.TimelineEvents

/-! The turn that the client derives from the events of a run, and the one of the server. -/
namespace AppBuilder.Web
namespace TimelineEvents
open Agent Store Encoding
open Workspaces (Runtime TimelineRun toHexString)
open Workspaces.TimelineTurns

variable {N : Type}

section Log

/-- The status that a terminal event stands for. -/
def denotedStatus (event : TimelineEventSource N) : Option AgentRunStatus :=
  if event.type = text "run.completed" then
    some (if isTrue (property (event.payload.getD .undefined) "conflict") then
      .completedWithConflict else .completed)
  else if event.type = text "run.failed" then some .failed
  else if event.type = text "run.cancelled" then some .cancelled
  else none

/-- The log of a run that has finished with the status. -/
structure FinishedLog (log : List (TimelineEventSource N)) (status : AgentRunStatus) : Prop where
  increasing : log.Pairwise fun a b => a.sequence < b.sequence
  planOnce : (log.filter fun e => e.type = text "agent.plan").length ≤ 1
  planValid : ∀ e ∈ log, e.type = text "agent.plan" → (parsedPlan e).isSome
  last : log.getLast?.bind denotedStatus = some status

/-- The states in which the client has a turn of the run from an earlier time. At that time the log
had its first `loaded` entries; once it has the terminal event the status is the final one. -/
inductive Loaded (runtime : Runtime) (runId : ObjectId) (log : List (TimelineEventSource N))
    (final : AgentRunStatus) : ℕ → ChatTimelineState N → Prop
  | built {loaded : ℕ} {state : ChatTimelineState N} {before after : List (ChatTimelineTurn N)}
      {run : TimelineRun} {snapshot : Option ProjectSnapshot} (hrun : run._id = runId)
      (hloaded : loaded ≤ log.length) (hstatus : loaded = log.length → run.status = final)
      (hbefore : ∀ t ∈ before, t.runId ≠ toHexString runId)
      (hturns : state.turns =
        before ++ buildChatTimelineTurn run (log.take loaded) snapshot :: after) :
      Loaded runtime runId log final loaded state
  | inserted {state : ChatTimelineState N} {now : Time} {run : ApiRun}
      (hrun : run._id = toHexString runId)
      (hfresh : ∀ t ∈ state.turns, t.runId ≠ toHexString runId) :
      Loaded runtime runId log final 0 (insertTimelineRun runtime now state run)

/-- The log delivered in its order from entry `next` on, where any event that came before, or that
was loaded, can come again at any point. -/
inductive Delivery (log : List (TimelineEventSource N)) (loaded : ℕ) :
    ℕ → List (TimelineEventSource N) → Prop
  | done : Delivery log loaded log.length []
  | first {next : ℕ} {event : TimelineEventSource N} {rest : List (TimelineEventSource N)}
      (hevent : log[next]? = some event) (hrest : Delivery log loaded (next + 1) rest) :
      Delivery log loaded next (event :: rest)
  | again {next : ℕ} {event : TimelineEventSource N} {rest : List (TimelineEventSource N)}
      (hevent : event ∈ log.take (max loaded next)) (hrest : Delivery log loaded next rest) :
      Delivery log loaded next (event :: rest)

/-- The events are applied one after the other. -/
def applyAll (runtime : Runtime) (runId : Text) (state : ChatTimelineState N)
    (events : List (TimelineEventSource N)) : ChatTimelineState N :=
  events.foldl (fun state event => applyTimelineEvent runtime runId state event.shown) state

end Log

section Payloads

mutual

/-- No text in the value begins or ends with white space. -/
def Unpadded : Json N → Prop
  | .string s => trim s = s
  | .array elements => AllUnpadded elements
  | .object members => MembersUnpadded members
  | _ => True

def AllUnpadded : List (Json N) → Prop
  | [] => True
  | element :: elements => Unpadded element ∧ AllUnpadded elements

def MembersUnpadded : List (Text × Json N) → Prop
  | [] => True
  | (_, value) :: members => Unpadded value ∧ MembersUnpadded members

end

theorem AllUnpadded.of_mem {elements : List (Json N)} (h : AllUnpadded elements) :
    ∀ v ∈ elements, Unpadded v := by
  induction elements with
  | nil => simp
  | cons element elements ih =>
    intro v hv
    rcases List.mem_cons.mp hv with rfl | hv
    · exact h.1
    · exact ih h.2 v hv

theorem MembersUnpadded.of_lookup {members : List (Text × Json N)} (h : MembersUnpadded members)
    {key : Text} {v : Json N} (hv : members.lookup key = some v) : Unpadded v := by
  induction members with
  | nil => cases hv
  | cons m members ih =>
    obtain ⟨k, value⟩ := m
    rw [List.lookup_cons] at hv
    split at hv
    · cases hv
      exact h.1
    · exact ih h.2 hv

theorem Unpadded.property {value : Json N} (h : Unpadded value) (key : String) :
    Unpadded (property value key) := by
  unfold Workspaces.TimelineTurns.property
  split
  · next members =>
    cases hlookup : members.lookup (text key) with
    | none => trivial
    | some v => exact MembersUnpadded.of_lookup h hlookup
  · trivial

theorem trimmed_eq {s : Text} {value : String} (hs : trim s = s)
    (h : trimmed (String.ofList s) = some value) : value = String.ofList s := by
  unfold trimmed at h
  rw [String.toList_ofList, hs] at h
  dsimp only at h
  split_ifs at h
  exact (Option.some.inj h).symm

theorem stringSchema_textOf {value : Json N} {s : String} (hvalue : Unpadded value)
    (h : stringSchema value = some s) : textOf value = some s := by
  cases value with
  | string t => exact congrArg some (trimmed_eq hvalue h).symm
  | _ => cases h

theorem pathSchema_textOf {value : Json N} {s : String} (hvalue : Unpadded value)
    (h : pathSchema value = some s) : textOf value = some s := by
  cases value with
  | string t =>
    change safeProjectPathSchema (String.ofList t) = some s at h
    unfold safeProjectPathSchema at h
    obtain ⟨trimmedPath, htrimmed, h⟩ := Option.bind_eq_some_iff.mp h
    dsimp only at h
    split_ifs at h
    cases h
    exact congrArg some (trimmed_eq hvalue htrimmed).symm
  | _ => cases h

theorem mapM_of_imp {α β : Type} {f g : α → Option β} {xs : List α} {ys : List β}
    (hfg : ∀ x ∈ xs, ∀ y, f x = some y → g x = some y) (h : xs.mapM f = some ys) :
    xs.mapM g = some ys := by
  induction xs generalizing ys with
  | nil => exact h
  | cons x xs ih =>
    rw [List.mapM_cons] at h ⊢
    obtain ⟨y, hy, h⟩ := Option.bind_eq_some_iff.mp h
    obtain ⟨rest, hrest, h⟩ := Option.bind_eq_some_iff.mp h
    have hx := hfg x List.mem_cons_self y hy
    have hxs := ih (fun x' hx' => hfg x' (List.mem_cons_of_mem x hx')) hrest
    simpa [hx, hxs] using h

theorem arraySchema_arrayOf {α : Type} {schema shape : Json N → Option α} {value : Json N}
    {ys : List α} (hvalue : Unpadded value)
    (hschema : ∀ v y, Unpadded v → schema v = some y → shape v = some y)
    (h : arraySchema schema value = some ys) : arrayOf shape value = some ys := by
  cases value with
  | array elements =>
    have helements := AllUnpadded.of_mem hvalue
    exact mapM_of_imp (fun v hv y => hschema v y (helements v hv)) h
  | _ => cases h

theorem stepSchema_stepOf {value : Json N} {step : ChatTimelineStep} (hvalue : Unpadded value)
    (h : stepSchema value = some step) : stepOf value = some step := by
  unfold stepSchema at h
  split_ifs at h
  obtain ⟨title, htitle, h⟩ := Option.bind_eq_some_iff.mp h
  obtain ⟨intent, hintent, h⟩ := Option.bind_eq_some_iff.mp h
  obtain ⟨files, hfiles, h⟩ := Option.bind_eq_some_iff.mp h
  cases h
  have htitle' := stringSchema_textOf (hvalue.property "title") htitle
  have hintent' := stringSchema_textOf (hvalue.property "intent") hintent
  have hfiles' := arraySchema_arrayOf (hvalue.property "filesLikelyTouched")
    (fun _ _ => pathSchema_textOf) hfiles
  simp [stepOf, htitle', hintent', hfiles']

/-- The client reads the plan that the schema returns where there is nothing to trim. -/
theorem planFromEvent_of_unpadded {event : TimelineEventSource N} {plan : ChatTimelinePlan}
    (hpayload : ∀ payload, event.payload = some payload → Unpadded payload)
    (h : parsedPlan event = some plan) : planFromEvent event.shown = some plan := by
  unfold parsedPlan at h
  split_ifs at h with htype
  obtain ⟨payload, hsome, h⟩ := Option.bind_eq_some_iff.mp h
  have hvalue := hpayload payload hsome
  unfold agentPlanSchema at h
  split_ifs at h
  obtain ⟨summary, hsummary, h⟩ := Option.bind_eq_some_iff.mp h
  obtain ⟨steps, hsteps, h⟩ := Option.bind_eq_some_iff.mp h
  obtain ⟨assumptions, hassumptions, h⟩ := Option.bind_eq_some_iff.mp h
  have hsummary' := stringSchema_textOf (hvalue.property "summary") hsummary
  have hsteps' := arraySchema_arrayOf (hvalue.property "steps")
    (fun _ _ => stepSchema_stepOf) hsteps
  have hassumptions' := arraySchema_arrayOf (hvalue.property "assumptions")
    (fun _ _ => stringSchema_textOf) hassumptions
  have hshown : event.shown.type = text "agent.plan" := htype
  have hproperty : ∀ key, payloadProperty event.shown key = property payload key := by
    intro key
    simp [payloadProperty, TimelineEventSource.shown, hsome]
  simp only [planFromEvent, hshown, if_true, hproperty, hsummary', hsteps', hassumptions']
  exact h

end Payloads

section Turn

variable {log : List (TimelineEventSource N)} {final : AgentRunStatus} {loaded : ℕ}

/-- The plans that are not loaded are written without white space around their texts. -/
def PlainPlans (log : List (TimelineEventSource N)) (loaded : ℕ) : Prop :=
  ∀ event ∈ log.drop loaded, event.type = text "agent.plan" →
    ∀ payload, event.payload = some payload → Unpadded payload

/-- The turn shows the first `known` entries of the log. -/
structure Follows (log : List (TimelineEventSource N)) (final : AgentRunStatus)
    (loaded known : ℕ) (turn : ChatTimelineTurn N) : Prop where
  events : turn.agent.events = (log.take known).map TimelineEventSource.shown
  status : known = log.length → turn.agent.status = final
  plan : PlainPlans log loaded → turn.agent.plan = (log.take known).findSome? parsedPlan

/-- The turn of the run after an event that is new to it. -/
def updatedTurn (runtime : Runtime) (turn : ChatTimelineTurn N) (event : ChatTimelineEvent N) :
    ChatTimelineTurn N :=
  let events := (turn.agent.events ++ [event]).mergeSort fun a b => a.sequence ≤ b.sequence
  { turn with agent := updateAgent runtime event { turn.agent with events := events } }

theorem withEvent_split {turns before after : List (ChatTimelineTurn N)}
    {turn : ChatTimelineTurn N} {runId : Text} (event : ChatTimelineEvent N)
    (hturns : turns = before ++ turn :: after) (hbefore : ∀ t ∈ before, t.runId ≠ runId)
    (hturn : turn.runId = runId) :
    withEvent turns runId event =
      if turn.agent.events.any (·.sequence = event.sequence) then none
      else
        let events := (turn.agent.events ++ [event]).mergeSort fun a b => a.sequence ≤ b.sequence
        some (before.length, { turn with agent := { turn.agent with events := events } }) := by
  have hnone : before.findIdx? (fun t => decide (t.runId = runId)) = none := by
    rw [List.findIdx?_eq_none_iff]
    intro t ht
    exact decide_eq_false (hbefore t ht)
  have hfind : turns.findIdx? (fun t => decide (t.runId = runId)) = some before.length := by
    rw [hturns, List.findIdx?_append, hnone, List.findIdx?_cons, decide_eq_true hturn]
    simp
  have hget : turns[before.length]? = some turn := by
    rw [hturns, List.getElem?_append_right (Nat.le_refl _), Nat.sub_self]
    rfl
  unfold withEvent
  rw [hfind]
  simp only [Option.bind_eq_bind, Option.bind_some, hget]

theorem applyTimelineEvent_known {runtime : Runtime} {state : ChatTimelineState N}
    {before after : List (ChatTimelineTurn N)} {turn : ChatTimelineTurn N} {runId : Text}
    {event : ChatTimelineEvent N} (hturns : state.turns = before ++ turn :: after)
    (hbefore : ∀ t ∈ before, t.runId ≠ runId) (hturn : turn.runId = runId)
    (hknown : ∃ e ∈ turn.agent.events, e.sequence = event.sequence) :
    applyTimelineEvent runtime runId state event = state := by
  have hany : turn.agent.events.any (·.sequence = event.sequence) = true := by
    simpa using hknown
  unfold applyTimelineEvent
  rw [withEvent_split event hturns hbefore hturn, if_pos hany]

theorem applyTimelineEvent_new {runtime : Runtime} {state : ChatTimelineState N}
    {before after : List (ChatTimelineTurn N)} {turn : ChatTimelineTurn N} {runId : Text}
    {event : ChatTimelineEvent N} (hturns : state.turns = before ++ turn :: after)
    (hbefore : ∀ t ∈ before, t.runId ≠ runId) (hturn : turn.runId = runId)
    (hnew : ∀ e ∈ turn.agent.events, e.sequence ≠ event.sequence) :
    (applyTimelineEvent runtime runId state event).turns =
      before ++ updatedTurn runtime turn event :: after := by
  have hany : ¬ turn.agent.events.any (·.sequence = event.sequence) = true := by
    simpa using hnew
  unfold applyTimelineEvent
  rw [withEvent_split event hturns hbefore hturn, if_neg hany]
  simp [hturns, updatedTurn]

theorem take_next {known : ℕ} {event : TimelineEventSource N} (hevent : log[known]? = some event) :
    log.take (known + 1) = log.take known ++ [event] := by
  rw [List.take_add_one, hevent]
  rfl

theorem lt_of_mem_take {known : ℕ} {event e : TimelineEventSource N}
    (hlog : log.Pairwise fun a b => a.sequence < b.sequence) (hevent : log[known]? = some event)
    (he : e ∈ log.take known) : e.sequence < event.sequence := by
  have hsub : (log.take known ++ [event]).Pairwise fun a b => a.sequence < b.sequence := by
    rw [← take_next hevent]
    exact hlog.sublist (List.take_sublist _ _)
  exact (List.pairwise_append.mp hsub).2.2 e he event List.mem_cons_self

theorem statusFromEvent_of_denoted {event : TimelineEventSource N} {status : AgentRunStatus}
    (h : denotedStatus event = some status) (current : AgentRunStatus) :
    statusFromEvent event.shown current = status := by
  have htype : event.shown.type = event.type := rfl
  unfold denotedStatus at h
  unfold statusFromEvent
  rw [htype]
  by_cases hcompleted : event.type = text "run.completed"
  · have hcreated : ¬ text "run.completed" = text "run.created" := by decide
    have hstarted : ¬ text "run.completed" = text "run.started" := by decide
    have hvalidation : ¬ text "run.completed" = text "validation.started" := by decide
    have hrepair : ¬ text "run.completed" = text "repair.started" := by decide
    rw [if_pos hcompleted] at h
    simp only [hcompleted, hcreated, hstarted, hvalidation, hrepair, if_false, if_true]
    exact Option.some.inj h
  rw [if_neg hcompleted] at h ⊢
  by_cases hfailed : event.type = text "run.failed"
  · have hcreated : ¬ text "run.failed" = text "run.created" := by decide
    have hstarted : ¬ text "run.failed" = text "run.started" := by decide
    have hvalidation : ¬ text "run.failed" = text "validation.started" := by decide
    have hrepair : ¬ text "run.failed" = text "repair.started" := by decide
    rw [if_pos hfailed] at h
    simp only [hfailed, hcreated, hstarted, hvalidation, hrepair, if_false, if_true]
    exact Option.some.inj h
  rw [if_neg hfailed] at h ⊢
  by_cases hcancelled : event.type = text "run.cancelled"
  · have hcreated : ¬ text "run.cancelled" = text "run.created" := by decide
    have hstarted : ¬ text "run.cancelled" = text "run.started" := by decide
    have hvalidation : ¬ text "run.cancelled" = text "validation.started" := by decide
    have hrepair : ¬ text "run.cancelled" = text "repair.started" := by decide
    rw [if_pos hcancelled] at h
    simp only [hcancelled, hcreated, hstarted, hvalidation, hrepair, if_false, if_true]
    exact Option.some.inj h
  · rw [if_neg hcancelled] at h
    cases h

theorem parsedPlan_eq_none {event : TimelineEventSource N}
    (h : event.type ≠ text "agent.plan") : parsedPlan event = none := if_neg h

/-- A log has at most one plan. -/
theorem findSome_take_next (hlog : FinishedLog log final) {known : ℕ}
    {event : TimelineEventSource N} (hevent : log[known]? = some event) :
    (log.take (known + 1)).findSome? parsedPlan =
      (parsedPlan event).or ((log.take known).findSome? parsedPlan) := by
  rw [take_next hevent, List.findSome?_append]
  cases hplan : parsedPlan event with
  | none => simp [hplan]
  | some plan =>
    have htype : event.type = text "agent.plan" := by
      by_contra hother
      rw [parsedPlan_eq_none hother] at hplan
      cases hplan
    have hsub := (List.take_sublist (known + 1) log).filter fun e => e.type = text "agent.plan"
    have honce := hsub.length_le.trans hlog.planOnce
    rw [take_next hevent, List.filter_append, List.length_append] at honce
    have hevents : [event].filter (fun e => e.type = text "agent.plan") = [event] := by
      simp [htype]
    rw [hevents, List.length_singleton] at honce
    have hempty := List.length_eq_zero_iff.mp (by omega :
      ((log.take known).filter fun e => e.type = text "agent.plan").length = 0)
    have hearlier : (log.take known).findSome? parsedPlan = none := by
      rw [List.findSome?_eq_none_iff]
      intro e he
      refine parsedPlan_eq_none fun hplanType => ?_
      have hmem : e ∈ (log.take known).filter fun e => e.type = text "agent.plan" :=
        List.mem_filter.mpr ⟨he, decide_eq_true hplanType⟩
      rw [hempty] at hmem
      cases hmem
    simp [hearlier, hplan]

theorem planFromEvent_of_plain (hlog : FinishedLog log final) (hplain : PlainPlans log loaded)
    {event : TimelineEventSource N} (hevent : event ∈ log.drop loaded) :
    planFromEvent event.shown = parsedPlan event := by
  by_cases htype : event.type = text "agent.plan"
  · obtain ⟨plan, hplan⟩ := Option.isSome_iff_exists.mp
      (hlog.planValid event (List.mem_of_mem_drop hevent) htype)
    rw [hplan]
    exact planFromEvent_of_unpadded (hplain event hevent htype) hplan
  · rw [parsedPlan_eq_none htype]
    exact if_neg htype

theorem Follows.next (runtime : Runtime) (hlog : FinishedLog log final) {known : ℕ}
    {turn : ChatTimelineTurn N} (hturn : Follows log final loaded known turn)
    (hloaded : loaded ≤ known) {event : TimelineEventSource N}
    (hevent : log[known]? = some event) :
    Follows log final loaded (known + 1) (updatedTurn runtime turn event.shown) where
  events := by
    have hsorted : (log.take (known + 1)).Pairwise fun a b => a.sequence < b.sequence :=
      hlog.increasing.sublist (List.take_sublist _ _)
    have hshown : ((log.take (known + 1)).map TimelineEventSource.shown).Pairwise
        fun a b => decide (a.sequence ≤ b.sequence) = true :=
      List.pairwise_map.mpr (hsorted.imp fun hlt => decide_eq_true (Nat.le_of_lt hlt))
    have hevents : turn.agent.events ++ [event.shown] =
        (log.take (known + 1)).map TimelineEventSource.shown := by
      rw [take_next hevent, List.map_append, hturn.events]
      rfl
    change ((turn.agent.events ++ [event.shown]).mergeSort _) = _
    rw [hevents]
    exact List.mergeSort_of_pairwise hshown
  status := by
    intro hend
    have hlast := hlog.last
    rw [List.getLast?_eq_getElem?, ← hend, Nat.add_sub_cancel, hevent] at hlast
    exact statusFromEvent_of_denoted hlast _
  plan := by
    intro hplain
    have hdrop : event ∈ log.drop loaded := by
      refine List.mem_of_getElem? (i := known - loaded) ?_
      rw [List.getElem?_drop, Nat.add_sub_cancel' hloaded]
      exact hevent
    have hplan := planFromEvent_of_plain hlog hplain hdrop
    change (planFromEvent event.shown).or turn.agent.plan = _
    rw [hplan, hturn.plan hplain, findSome_take_next hlog hevent]

/-- The events of a delivery, first and repeated ones, bring the turn to the end of the log. -/
theorem run_delivery (runtime : Runtime) (hlog : FinishedLog log final) {runId : Text}
    {next : ℕ} {delivered : List (TimelineEventSource N)}
    (hdelivery : Delivery log loaded next delivered) {state : ChatTimelineState N}
    {before after : List (ChatTimelineTurn N)} {turn : ChatTimelineTurn N}
    (hturns : state.turns = before ++ turn :: after) (hbefore : ∀ t ∈ before, t.runId ≠ runId)
    (hrun : turn.runId = runId) (hloaded : loaded ≤ log.length)
    (hfollows : Follows log final loaded (max loaded next) turn) :
    ∃ turn', (applyAll runtime runId state delivered).turns = before ++ turn' :: after ∧
      turn'.runId = runId ∧ Follows log final loaded log.length turn' := by
  induction hdelivery generalizing state turn with
  | done =>
    rw [Nat.max_eq_right hloaded] at hfollows
    exact ⟨turn, hturns, hrun, hfollows⟩
  | @first next event rest hevent hrest ih =>
    have hmem : ∀ known, next < known → event ∈ log.take known := by
      intro known hlt
      refine List.mem_of_getElem? (i := next) ?_
      rw [List.getElem?_take_of_lt hlt]
      exact hevent
    change ∃ turn', (applyAll runtime runId
      (applyTimelineEvent runtime runId state event.shown) rest).turns = _ ∧ _
    by_cases hnew : loaded ≤ next
    · rw [Nat.max_eq_right hnew] at hfollows
      have hfresh : ∀ e ∈ turn.agent.events, e.sequence ≠ event.shown.sequence := by
        intro e he
        rw [hfollows.events] at he
        obtain ⟨e', he', rfl⟩ := List.mem_map.mp he
        exact Nat.ne_of_lt (lt_of_mem_take hlog.increasing hevent he')
      have hturns' : (applyTimelineEvent runtime runId state event.shown).turns = _ :=
        applyTimelineEvent_new hturns hbefore hrun hfresh
      have hfollows' := hfollows.next runtime hlog hnew hevent
      rw [← Nat.max_eq_right (by omega : loaded ≤ next + 1)] at hfollows'
      exact ih hturns' hrun hfollows'
    · have hmax : max loaded (next + 1) = max loaded next := by omega
      rw [applyTimelineEvent_known hturns hbefore hrun
        ⟨event.shown, by rw [hfollows.events]; exact List.mem_map_of_mem (hmem _ (by omega)), rfl⟩]
      exact ih hturns hrun (hmax ▸ hfollows)
  | @again next event rest hevent hrest ih =>
    change ∃ turn', (applyAll runtime runId
      (applyTimelineEvent runtime runId state event.shown) rest).turns = _ ∧ _
    rw [applyTimelineEvent_known hturns hbefore hrun
      ⟨event.shown, by rw [hfollows.events]; exact List.mem_map_of_mem hevent, rfl⟩]
    exact ih hturns hrun hfollows

end Turn

section Agreement

variable {log : List (TimelineEventSource N)}

theorem built_follows (hlog : FinishedLog log final) {loaded : ℕ} {run : TimelineRun}
    (snapshot : Option ProjectSnapshot) (hstatus : loaded = log.length → run.status = final) :
    Follows log final loaded loaded (buildChatTimelineTurn run (log.take loaded) snapshot) := by
  obtain ⟨hevents, hplan⟩ := buildChatTimelineTurn_of_increasing run snapshot
    (hlog.increasing.sublist (List.take_sublist loaded log))
  exact ⟨hevents, hstatus, fun _ => hplan⟩

theorem inserted_follows (hlog : FinishedLog log final) (now : Time) (run : ApiRun) :
    Follows log final 0 0 (newTurn now run) := by
  refine ⟨rfl, fun hempty => ?_, fun _ => rfl⟩
  have hlast := hlog.last
  rw [List.length_eq_zero_iff.mp hempty.symm] at hlast
  cases hlast

/-- The turn of the run in a state that has loaded a part of its log. -/
theorem Loaded.turn {runtime : Runtime} {runId : ObjectId} {final : AgentRunStatus}
    {loaded : ℕ} {state : ChatTimelineState N} (hlog : FinishedLog log final)
    (h : Loaded runtime runId log final loaded state) :
    loaded ≤ log.length ∧ ∃ before turn after, state.turns = before ++ turn :: after ∧
      (∀ t ∈ before, t.runId ≠ toHexString runId) ∧ turn.runId = toHexString runId ∧
      Follows log final loaded loaded turn := by
  cases h with
  | @built _ _ before after run snapshot hrun hloaded hstatus hbefore hturns =>
    have hrunId : (buildChatTimelineTurn run (log.take loaded) snapshot).runId =
        toHexString runId := congrArg toHexString hrun
    exact ⟨hloaded, before, _, after, hturns, hbefore, hrunId, built_follows hlog snapshot hstatus⟩
  | @inserted state now run hrun hfresh =>
    have hmissing : ¬ state.turns.any (·.runId = run._id) = true := by
      simpa [hrun] using hfresh
    have hturns : (insertTimelineRun runtime now state run).turns =
        (state.turns ++ [newTurn now run]).mergeSort (createdBefore runtime) := by
      rw [insertTimelineRun, if_neg hmissing]
    have hmem : newTurn now run ∈ (insertTimelineRun runtime now state run).turns := by
      rw [hturns, List.mem_mergeSort]
      exact List.mem_append_right _ List.mem_cons_self
    have hfound : ((insertTimelineRun runtime now state run).turns.find?
        fun t => t.runId = toHexString runId).isSome := by
      rw [List.find?_isSome]
      exact ⟨_, hmem, decide_eq_true hrun⟩
    obtain ⟨turn, hturn⟩ := Option.isSome_iff_exists.mp hfound
    obtain ⟨hrunId, before, after, hsplit, hbefore⟩ := List.find?_eq_some_iff_append.mp hturn
    have hrunId : turn.runId = toHexString runId := of_decide_eq_true hrunId
    have hnew : turn = newTurn now run := by
      have hin := List.mem_of_find?_eq_some hturn
      rw [hturns, List.mem_mergeSort] at hin
      rcases List.mem_append.mp hin with hold | hnew
      · exact absurd hrunId (hfresh turn hold)
      · exact List.mem_singleton.mp hnew
    refine ⟨Nat.zero_le _, before, turn, after, hsplit, ?_, hrunId, ?_⟩
    · intro t ht
      simpa using hbefore t ht
    · rw [hnew]
      exact inserted_follows hlog now run

/-- Applying the log of a finished run, with repetitions, to a turn from any earlier time gives the
events and the status of the turn that the server builds, and its plan where the texts of the plan
have nothing to trim. The other turns stay. -/
theorem applied_log_agrees (runtime : Runtime) {run : TimelineRun}
    (snapshot : Option ProjectSnapshot) (hlog : FinishedLog log run.status) {loaded : ℕ}
    {state : ChatTimelineState N} (hstate : Loaded runtime run._id log run.status loaded state)
    {delivered : List (TimelineEventSource N)} (hdelivery : Delivery log loaded 0 delivered) :
    ∃ before turn turn' after, state.turns = before ++ turn :: after ∧
      (applyAll runtime (toHexString run._id) state delivered).turns = before ++ turn' :: after ∧
      turn.runId = toHexString run._id ∧ turn'.runId = toHexString run._id ∧
      turn'.agent.events = (buildChatTimelineTurn run log snapshot).agent.events ∧
      turn'.agent.status = (buildChatTimelineTurn run log snapshot).agent.status ∧
      (PlainPlans log loaded →
        turn'.agent.plan = (buildChatTimelineTurn run log snapshot).agent.plan) := by
  obtain ⟨hloaded, before, turn, after, hturns, hbefore, hrunId, hfollows⟩ := hstate.turn hlog
  obtain ⟨turn', hturns', hrunId', hend⟩ :=
    run_delivery runtime hlog hdelivery hturns hbefore hrunId hloaded
      (by simpa using hfollows)
  obtain ⟨hevents, hplan⟩ := buildChatTimelineTurn_of_increasing run snapshot hlog.increasing
  refine ⟨before, turn, turn', after, hturns, hturns', hrunId, hrunId', ?_, ?_, ?_⟩
  · rw [hevents, hend.events, List.take_length]
  · exact hend.status rfl
  · intro hplain
    rw [hplan, hend.plan hplain, List.take_length]

end Agreement

section Examples

private def planPayload (summary : String) : Json ℕ :=
  .object [(text "summary", .string (text summary)),
    (text "steps", .array [.object [(text "title", .string (text "Counter")),
      (text "intent", .string (text "Count clicks")),
      (text "filesLikelyTouched", .array [.string (text "src/App.tsx")])]]),
    (text "assumptions", .array [])]

private def planEvent (summary : String) : TimelineEventSource ℕ :=
  ⟨text "agent.plan", 1, "Plan created", some (planPayload summary), 1000⟩

private def completedEvent : TimelineEventSource ℕ :=
  ⟨text "run.completed", 2, "Run completed", none, 2000⟩

private def planLog (summary : String) : List (TimelineEventSource ℕ) :=
  [planEvent summary, completedEvent]

private def plannedRun (status : AgentRunStatus) : TimelineRun where
  _id := 1
  userId := 2
  workspaceId := none
  projectId := 3
  branchId := none
  chatId := some 4
  prompt := "Build a counter"
  status := status
  mode := .create
  baseSnapshotId := none
  baseSnapshotRevision := 0
  baseHeadVersion := none
  resultSnapshotId := none
  retryOfRunId := none
  validationCandidateId := none
  retryable := false
  attempt := 0
  maxRepairAttempts := 2
  error := none
  usage := none
  startedAt := none
  completedAt := none
  attachments := []
  modelId := none
  modelProvider := none
  model := "model"
  createdAt := 0

private def runningTurn : ChatTimelineTurn ℕ := buildChatTimelineTurn (plannedRun .running) [] none

private def runningState : ChatTimelineState ℕ :=
  ⟨[runningTurn], [], false, false, none, ⟨false, none⟩⟩

private def noDates : Runtime := ⟨fun _ => none, fun _ => []⟩

private theorem planLog_finished {summary : String}
    (h : (agentPlanSchema (planPayload summary)).isSome) :
    FinishedLog (planLog summary) .completed where
  increasing := by simp [planLog, planEvent, completedEvent]
  planOnce := by simp [planLog, planEvent, completedEvent, text]
  planValid := by
    intro event hevent htype
    rcases List.mem_cons.mp hevent with rfl | hevent
    · rw [parsedPlan, if_pos htype, planEvent, Option.bind_some]
      exact h
    · rw [List.mem_singleton.mp hevent] at htype
      exact absurd htype (by decide)
  last := by
    have hlast : (planLog summary).getLast? = some completedEvent := rfl
    rw [hlast]
    decide

private theorem runningState_loaded (summary : String) :
    Loaded noDates 1 (planLog summary) .completed 0 runningState :=
  @Loaded.built _ _ _ _ _ 0 _ [] [] (plannedRun .running) none rfl (Nat.zero_le _)
    (fun h => by cases h) (by simp) rfl

private theorem planLog_delivery (summary : String) :
    Delivery (planLog summary) 0 0 [planEvent summary, planEvent summary, completedEvent] :=
  .first rfl (.again (by simp [planLog]) (.first rfl .done))

theorem applied_log_agrees_counter : ∃ before turn turn' after,
    runningState.turns = before ++ turn :: after ∧
    (applyAll noDates (toHexString 1) runningState [planEvent "Count", planEvent "Count",
      completedEvent]).turns = before ++ turn' :: after ∧
    turn.runId = toHexString 1 ∧ turn'.runId = toHexString 1 ∧
    turn'.agent.events =
      (buildChatTimelineTurn (plannedRun .completed) (planLog "Count") none).agent.events ∧
    turn'.agent.status =
      (buildChatTimelineTurn (plannedRun .completed) (planLog "Count") none).agent.status ∧
    (PlainPlans (planLog "Count") 0 →
      turn'.agent.plan =
        (buildChatTimelineTurn (plannedRun .completed) (planLog "Count") none).agent.plan) :=
  @applied_log_agrees _ _ noDates (plannedRun .completed) none
    (planLog_finished (by decide +kernel)) _ _ (runningState_loaded "Count") _
    (planLog_delivery "Count")

private def plannedTurn (summary : String) : ChatTimelineTurn ℕ :=
  updatedTurn noDates runningTurn (planEvent summary).shown

private theorem running_events : runningTurn.agent.events = [] := by
  simp [runningTurn, buildChatTimelineTurn]

private theorem planned_events (summary : String) :
    (plannedTurn summary).agent.events = [(planEvent summary).shown] := by
  simp [plannedTurn, updatedTurn, updateAgent, running_events]

/-- The turns after the log of a plan, which is delivered twice. -/
private theorem applyAll_planLog (summary : String) :
    (applyAll noDates (toHexString 1) runningState
      [planEvent summary, planEvent summary, completedEvent]).turns =
        [updatedTurn noDates (plannedTurn summary) completedEvent.shown] := by
  have hrun : (plannedTurn summary).runId = toHexString 1 := rfl
  have hplanned : (applyTimelineEvent noDates (toHexString 1) runningState
      (planEvent summary).shown).turns = [] ++ plannedTurn summary :: [] :=
    applyTimelineEvent_new rfl (by simp) rfl (by simp [running_events])
  change (applyTimelineEvent noDates (toHexString 1) (applyTimelineEvent noDates (toHexString 1)
    (applyTimelineEvent noDates (toHexString 1) runningState (planEvent summary).shown)
      (planEvent summary).shown) completedEvent.shown).turns = _
  rw [applyTimelineEvent_known hplanned (by simp) hrun (by simp [planned_events]),
    applyTimelineEvent_new hplanned (by simp) hrun
      (by simp [planned_events, planEvent, completedEvent, TimelineEventSource.shown]),
    List.nil_append]

/-- A plan with white space around a text: the server trims it, the client does not. -/
theorem padded_plan_differs :
    FinishedLog (planLog " Count ") .completed ∧
      Loaded noDates 1 (planLog " Count ") .completed 0 runningState ∧
      Delivery (planLog " Count ") 0 0
        [planEvent " Count ", planEvent " Count ", completedEvent] ∧
      ¬ ∃ turn' ∈ (applyAll noDates (toHexString 1) runningState
          [planEvent " Count ", planEvent " Count ", completedEvent]).turns,
        turn'.agent.plan =
          (buildChatTimelineTurn (plannedRun .completed) (planLog " Count ") none).agent.plan := by
  have hlog : FinishedLog (planLog " Count ") .completed := planLog_finished (by decide +kernel)
  refine ⟨hlog, runningState_loaded _, planLog_delivery _, ?_⟩
  rintro ⟨turn', hturn', hplan⟩
  rw [applyAll_planLog, List.mem_singleton] at hturn'
  rw [hturn', (buildChatTimelineTurn_of_increasing _ none hlog.increasing).2] at hplan
  have hdiffers : (planFromEvent completedEvent.shown).or
      ((planFromEvent (planEvent " Count ").shown).or none) ≠
        (planLog " Count ").findSome? parsedPlan := by decide +kernel
  exact hdiffers hplan

end Examples

end TimelineEvents
end AppBuilder.Web
