import AppBuilder.Agent.EventBus
import AppBuilder.Async.Discipline
import AppBuilder.Store.Laws
import Mathlib.Data.List.Perm.Basic

/-! Concurrent `emitAgentEvent` calls: the sequence numbers of a run, and the race between
reading the latest event and inserting the next one. -/
namespace AppBuilder.Agent
open Async Store

/-- The stored events of a run are numbered 1..n in the order of their insertion. -/
def Numbered (w : World) (r : ObjectId) : Prop :=
  (w.log r).map (·.sequence) = List.range' 1 (w.log r).length

theorem Numbered.taken_iff {w : World} {r : ObjectId} (h : Numbered w r) (n : ℕ) :
    (∃ e ∈ w.log r, e.sequence = n) ↔ 1 ≤ n ∧ n ≤ (w.log r).length := by
  have hm : n ∈ (w.log r).map (·.sequence) ↔ ∃ e ∈ w.log r, e.sequence = n := List.mem_map
  rw [← hm, h, List.mem_range'_1]
  omega

/-- The number that is read is the one after the last. -/
theorem Numbered.nextSequence_latest {w : World} {r : ObjectId} (h : Numbered w r) :
    nextSequence (w.latestSequence r) = (w.log r).length + 1 := by
  rw [World.latestSequence, h]
  cases hn : (w.log r).length with
  | zero => rfl
  | succ n =>
    have hmax : (List.range' 1 (n + 1)).max? = some (n + 1) := by
      rw [List.max?_eq_some_iff]
      exact ⟨by simp, fun b hb => by have := List.mem_range'_1.mp hb; omega⟩
    rw [hmax]
    rfl

theorem Numbered.insertEvent {w : World} {t : ThreadId} {fields : AgentEvent}
    (h : ∀ r, Numbered w r) (hn : fields.sequence = (w.log fields.runId).length + 1)
    (r : ObjectId) : Numbered (w.insertEvent t fields).2 r := by
  rw [Numbered, World.insertEvent_log]
  split_ifs with hr
  · subst hr
    have hl : (w.log fields.runId).map (·.sequence) = _ := h fields.runId
    rw [List.map_append, hl, List.length_append, List.length_singleton, List.range'_1_concat]
    simp [World.insertEvent, hn, Nat.add_comm]
  · rw [List.append_nil]
    exact h r

/-- Any number of calls from any number of processes, with a database that never fails. -/
def emitters : Machine api World EmitAgentEventInput SerializedAgentEvent Empty where
  exec t _ op w := World.exec t none op w
  body := emitAgentEvent
  fault _ _ := false
  spawnable _ _ := true
  act a _ := a.elim
  crashes := false
  onCrash _ w := w

abbrev Emitters : Type := Config api World EmitAgentEventInput SerializedAgentEvent

inductive EmitPhase where
  | reading (input : EmitAgentEventInput)
  | numbered (input : EmitAgentEventInput) (sequence : ℕ)
  | stored (input : EmitAgentEventInput) (event : AgentEvent)
  | refused

def EmitPhase.permits : EmitPhase → Op → Prop
  | .reading input, op => op = .latestSequence input.runId
  | .numbered input sequence, op => op = .createEvent (input.document sequence)
  | .stored input event, op => op = .publish input.runId (serializeAgentEvent event)
  | .refused, _ => False

def EmitPhase.next : EmitPhase → (op : Op) → api.Answer op → EmitPhase
  | .reading input, .latestSequence _, .ok latest => .numbered input (nextSequence latest)
  | .numbered input _, .createEvent _, .ok event => .stored input event
  | .numbered _ _, .createEvent _, .error _ => .refused
  | φ, _, _ => φ

def emission : Protocol api EmitPhase := ⟨EmitPhase.permits, emitters.Answers, EmitPhase.next⟩

/-- `s` is what was stored for `input`. -/
structure Emitted (input : EmitAgentEventInput) (s : SerializedAgentEvent) : Prop where
  runId : s.runId = input.runId
  type : s.type = input.type
  message : s.message = input.message
  payload : s.payload = input.payload

/-- The event that a call has already inserted. -/
def storedEvent? (th : Thread api EmitAgentEventInput SerializedAgentEvent) :
    Option SerializedAgentEvent :=
  match th.prog with
  | .pure s => some s
  | .await (.publish _ s) _ => some s
  | _ => none

theorem emitters_answers {op : Op} {r : api.Answer op} (h : emission.possible op r) :
    ∃ t w, (World.exec t none op w).1 = r := by
  obtain ⟨t, e, w, o, ho, rfl⟩ := h
  cases o with
  | done => exact ⟨t, w, rfl⟩
  | refused e => cases ho
  | unacknowledged e => cases ho

def emissionConformance : Conformance emitters emission where
  start := .reading
  crash := id
  returns _ s φ := ∃ input event, φ = .stored input event ∧ s = serializeAgentEvent event
  throws _ _ φ := φ = .refused
  body_tracks input := by
    simp only [emitters, emitAgentEvent, getNextSequence, Prog.bind_eq, Prog.pure_eq,
      Protocol.tracks_bind, tracks_perform, Protocol.tracks_pure]
    refine ⟨rfl, fun latest _ => ⟨rfl, fun event _ => ⟨rfl, fun _ _ => ⟨_, _, rfl, rfl⟩, ?_⟩,
      fun _ _ => rfl⟩, ?_⟩ <;>
    · intro e h
      obtain ⟨t, w, h⟩ := emitters_answers h
      cases h
  possible _ _ h := h

/-- What a call knows of the log: the number it read is at most one ahead. -/
def EmitPhase.Own (input : EmitAgentEventInput) (w : World) : EmitPhase → Prop
  | .reading i => i = input
  | .numbered i sequence => i = input ∧ 1 ≤ sequence ∧ sequence ≤ (w.log i.runId).length + 1
  | .stored i event => i = input ∧ Emitted input (serializeAgentEvent event)
  | .refused => True

theorem EmitPhase.Own.grow {input : EmitAgentEventInput} {w w' : World} {φ : EmitPhase}
    (h : φ.Own input w) (hw : ∀ r, (w.log r).length ≤ (w'.log r).length) : φ.Own input w' := by
  cases φ with
  | numbered i sequence =>
    obtain ⟨hi, h1, hn⟩ := h
    exact ⟨hi, h1, Nat.le_trans hn (Nat.succ_le_succ (hw _))⟩
  | reading i => exact h
  | stored i event => exact h
  | refused => trivial

/-- The step lemma: one operation of a call in phase `φ`. -/
theorem emission_step {t : ThreadId} {input : EmitAgentEventInput} {w : World} {φ : EmitPhase}
    {op : Op} (hw : ∀ r, Numbered w r) (hown : φ.Own input w) (hp : φ.permits op) :
    (∀ r, Numbered (World.exec t none op w).2 r) ∧
      (φ.next op (World.exec t none op w).1).Own input (World.exec t none op w).2 ∧
      ∀ r, (w.log r).length ≤ ((World.exec t none op w).2.log r).length := by
  cases φ with
  | reading i =>
    subst hp
    have hn := (hw i.runId).nextSequence_latest
    exact ⟨hw, ⟨hown, by omega, Nat.le_of_eq hn⟩, fun r => Nat.le_refl _⟩
  | numbered i n =>
    subst hp
    obtain ⟨rfl, h1, hn⟩ := hown
    rcases World.createEvent_cases w t (i.document n) with ⟨-, hc⟩ | ⟨hfree, hc⟩
    · simp only [World.exec, hc]
      exact ⟨hw, trivial, fun r => Nat.le_refl _⟩
    · have hlast : n = (w.log i.runId).length + 1 := by
        have hnot : ¬ (1 ≤ n ∧ n ≤ (w.log i.runId).length) := by
          intro h
          obtain ⟨e, he, hs⟩ := ((hw i.runId).taken_iff n).mpr h
          exact hfree e he hs
        omega
      simp only [World.exec, hc]
      exact ⟨Numbered.insertEvent hw hlast, ⟨rfl, rfl, rfl, rfl, rfl⟩, fun r => by
        rw [World.insertEvent_log]
        simp⟩
  | stored i event =>
    subst hp
    exact ⟨hw, hown, fun r => Nat.le_refl _⟩
  | refused => cases hp

theorem emitters_perform {op : Op} {o : Outcome AgentError} (h : emitters.allows op o = true)
    (t : ThreadId) (input : EmitAgentEventInput) (w : World) :
    emitters.perform t input op w o = World.exec t none op w := by
  cases o with
  | done => rfl
  | refused e => cases h
  | unacknowledged e => cases h

def emissionDiscipline : Discipline emissionConformance where
  ok _ _ := True
  shared _ w := ∀ r, Numbered w r
  own _ input φ w := φ.Own input w
  moves _ w w' := ∀ r, (w.log r).length ≤ (w'.log r).length
  spawn n input w hw _ := ⟨hw, rfl, fun r => Nat.le_refl _⟩
  advance c t o input op next φ ht _ ha hw hown hp := by
    rw [emitters_perform ha]
    exact emission_step hw hown hp
  crash h := by cases h
  act c a := a.elim
  stable n m w w' u input φ _ _ hm _ _ hown := hown.grow hm

/-- What a call in this phase has stored. -/
def EmitPhase.held : EmitPhase → Option SerializedAgentEvent
  | .stored _ event => some (serializeAgentEvent event)
  | _ => none

section Calls

variable {input : EmitAgentEventInput} {p : Prog api SerializedAgentEvent} {φ : EmitPhase}

private theorem held_of_tracks (h : emission.Tracks p φ (emissionConformance.returns input)
    (emissionConformance.throws input)) (crashed : Bool) :
    storedEvent? ⟨input, p, crashed⟩ = φ.held := by
  cases p with
  | pure s =>
    obtain ⟨i, event, rfl, rfl⟩ := h
    rfl
  | throw e =>
    cases h
    rfl
  | await op next =>
    have hp : φ.permits op := h.1
    cases φ with
    | refused => cases hp
    | reading i | numbered i n | stored i event =>
      subst hp
      rfl

private theorem refused_of_tracks (h : emission.Tracks p φ (emissionConformance.returns input)
    (emissionConformance.throws input)) : (∃ e, p = .throw e) ↔ φ = .refused := by
  cases p with
  | pure s =>
    obtain ⟨i, event, rfl, -⟩ := h
    simp
  | throw e =>
    cases h
    simp
  | await op next =>
    have hp : φ.permits op := h.1
    constructor
    · simp
    · rintro rfl
      cases hp

end Calls

/-- The latest event of the run is still the one that the call has read when it inserts. -/
def LatestStillRead (c : Emitters) : Label api EmitAgentEventInput Empty → Prop
  | .advance t _ => ∀ fields ∈ (c.pending t).bind Op.inserted?,
      fields.sequence = nextSequence (c.state.latestSequence fields.runId)
  | _ => True

instance (c : Emitters) : (l : Label api EmitAgentEventInput Empty) →
    Decidable (LatestStillRead c l)
  | .advance _ _ => inferInstanceAs (Decidable (∀ fields ∈ Option.bind _ _, _))
  | .spawn _ | .crash _ | .act _ => isTrue trivial

/-- No call has thrown. -/
def Succeeds (c : Emitters) : Prop :=
  ∀ th ∈ c.threads, ∀ e, th.prog ≠ .throw e

/-- Every call that has ended has succeeded; the events stored since `w` are those of the calls
past their insertion, each stored once and as its call asked; runs are numbered 1..n. -/
structure EventsDelivered (w : World) (c : Emitters) : Prop where
  succeeds : Succeeds c
  once : ∃ stored, c.state.events = w.events ++ stored ∧
    (c.threads.filterMap storedEvent?).Perm (stored.map serializeAgentEvent)
  own : ∀ th ∈ c.threads, ∀ s, storedEvent? th = some s → Emitted th.entry s
  numbered : ∀ r, Numbered c.state r

/-- One step of a call either leaves the log alone or stores the event of the call. -/
theorem emission_stores {t : ThreadId} {w : World} {φ : EmitPhase} {op : Op} (hp : φ.permits op) :
    ((World.exec t none op w).2.events = w.events ∧
      (φ.next op (World.exec t none op w).1).held = φ.held) ∨
    ∃ event, (World.exec t none op w).2.events = w.events ++ [event] ∧ φ.held = none ∧
      (φ.next op (World.exec t none op w).1).held = some (serializeAgentEvent event) := by
  cases φ with
  | reading i =>
    subst hp
    exact .inl ⟨rfl, rfl⟩
  | numbered i n =>
    subst hp
    rcases World.createEvent_cases w t (i.document n) with ⟨-, hc⟩ | ⟨-, hc⟩
    · exact .inl (by simp only [World.exec, hc]; exact ⟨trivial, rfl⟩)
    · exact .inr (by simp only [World.exec, hc]; exact ⟨_, rfl, rfl, rfl⟩)
  | stored i event =>
    subst hp
    exact .inl ⟨rfl, rfl⟩
  | refused => cases hp

/-- A call is refused exactly when another call of the run has inserted since it read. -/
theorem emission_refused {t : ThreadId} {input : EmitAgentEventInput} {w : World}
    {φ : EmitPhase} {op : Op} (hw : ∀ r, Numbered w r) (hown : φ.Own input w)
    (hp : φ.permits op) :
    φ.next op (World.exec t none op w).1 ≠ .refused ↔
      ∀ fields, op = .createEvent fields →
        fields.sequence = nextSequence (w.latestSequence fields.runId) := by
  cases φ with
  | reading i =>
    subst hp
    simp [World.exec, EmitPhase.next]
  | numbered i n =>
    subst hp
    obtain ⟨rfl, h1, hn⟩ := hown
    have hiff := (hw i.runId).taken_iff n
    have hlatest := (hw i.runId).nextSequence_latest
    simp only [Op.createEvent.injEq, forall_eq']
    rcases World.createEvent_cases w t (i.document n) with ⟨htaken, hc⟩ | ⟨hfree, hc⟩
    · have hle := hiff.mp htaken
      simp only [World.exec, hc, EmitPhase.next, ne_eq, not_true_eq_false, false_iff]
      show ¬ n = nextSequence (w.latestSequence i.runId)
      omega
    · have hlt : ¬ (1 ≤ n ∧ n ≤ (w.log i.runId).length) := by
        intro h
        obtain ⟨e, he, hs⟩ := hiff.mpr h
        exact hfree e he hs
      simp only [World.exec, hc, EmitPhase.next, ne_eq, reduceCtorEq, not_false_eq_true, true_iff]
      show n = nextSequence (w.latestSequence i.runId)
      omega
  | stored i event =>
    subst hp
    simp [EmitPhase.next]
  | refused => cases hp

section Lists

variable {α β : Type} {f : α → Option β} {b : α}

private theorem filterMap_set_same {l : List α} {t : ℕ} {a : α} (ht : l[t]? = some a)
    (hf : f b = f a) : (l.set t b).filterMap f = l.filterMap f := by
  induction l generalizing t with
  | nil => rfl
  | cons x l ih =>
    cases t with
    | zero =>
      cases Option.some.inj ht
      simp [List.filterMap_cons, hf]
    | succ t => simp [List.filterMap_cons, ih ht]

private theorem filterMap_set_new {l : List α} {t : ℕ} {a : α} {s : β} (ht : l[t]? = some a)
    (ha : f a = none) (hb : f b = some s) :
    ((l.set t b).filterMap f).Perm (s :: l.filterMap f) := by
  induction l generalizing t with
  | nil => cases ht
  | cons x l ih =>
    cases t with
    | zero =>
      cases Option.some.inj ht
      simp [ha, hb]
    | succ t =>
      cases hx : f x with
      | none => simpa [hx] using ih ht
      | some y =>
        simp only [List.set_cons_succ, List.filterMap_cons, hx]
        exact ((ih ht).cons y).trans (.swap ..)

end Lists

def Recorded (w : World) (c : Emitters) : Prop :=
  ∃ stored, c.state.events = w.events ++ stored ∧
    (c.threads.filterMap storedEvent?).Perm (stored.map serializeAgentEvent)

theorem Recorded.step {w : World} {c c' : Emitters} {l} (h : Recorded w c)
    (hc : emissionDiscipline.Holds c) (hstep : emitters.step c l = some c') :
    Recorded w c' := by
  obtain ⟨stored, hev, hperm⟩ := h
  cases l with
  | spawn input =>
    obtain ⟨-, rfl⟩ := Machine.step_spawn hstep
    refine ⟨stored, hev, ?_⟩
    have hnew : storedEvent? ⟨input, emitters.body input, false⟩ = none :=
      held_of_tracks (emissionConformance.body_tracks input) false
    simpa [List.filterMap_append, hnew] using hperm
  | advance t o =>
    obtain ⟨input, op, next, ht, ha, rfl⟩ := Machine.step_advance hstep
    obtain ⟨φ, -, hp, htr⟩ := hc.advancing ht
    have hwait : emission.Tracks (.await op next) φ (emissionConformance.returns input)
        (emissionConformance.throws input) := ⟨hp, htr⟩
    have hold := held_of_tracks hwait false
    have hnew := held_of_tracks (htr _ (emitters.answers_perform ha t input c.state)) false
    rw [emitters_perform ha] at hnew ⊢
    rcases emission_stores hp with ⟨he, hheld⟩ | ⟨event, he, hnone, hsome⟩
    · refine ⟨stored, he.trans hev, ?_⟩
      rw [filterMap_set_same ht (hnew.trans (hheld.trans hold.symm))]
      exact hperm
    · refine ⟨stored ++ [event], by rw [he, hev, List.append_assoc], ?_⟩
      refine (filterMap_set_new ht (hold.trans hnone) (hnew.trans hsome)).trans ?_
      rw [List.map_append]
      exact (hperm.cons _).trans (List.perm_append_singleton _ _).symm
  | crash t =>
    have hcr := (Machine.step_crash hstep).1
    cases hcr
  | act a => exact a.elim

theorem succeeds_step {c c' : Emitters} {l} (hc : emissionDiscipline.Holds c)
    (hstep : emitters.step c l = some c') : Succeeds c' ↔ Succeeds c ∧ LatestStillRead c l := by
  cases l with
  | spawn input =>
    obtain ⟨-, rfl⟩ := Machine.step_spawn hstep
    have hnew : ∀ e, emitters.body input ≠ .throw e := fun e he => by
      cases (refused_of_tracks (emissionConformance.body_tracks input)).mp ⟨e, he⟩
    simp [Succeeds, or_imp, forall_and, hnew, LatestStillRead]
  | advance t o =>
    obtain ⟨input, op, next, ht, ha, rfl⟩ := Machine.step_advance hstep
    obtain ⟨φ, hown, hp, htr⟩ := hc.advancing ht
    have hlt : t < c.threads.length := (List.getElem?_eq_some_iff.mp ht).1
    have hthrown := refused_of_tracks (htr _ (emitters.answers_perform ha t input c.state))
    have hrefused := emission_refused hc.1 hown hp (t := t)
    have hlatest : LatestStillRead c (.advance t o) ↔ ∀ fields, op = .createEvent fields →
        fields.sequence = nextSequence (c.state.latestSequence fields.runId) := by
      simp [LatestStillRead, Config.pending, ht, Prog.pending, ← Op.mem_inserted?]
    rw [emitters_perform ha] at hthrown ⊢
    rw [hlatest, ← hrefused, ne_eq]
    refine ⟨fun h => ⟨fun th hth e he => ?_, fun hφ => ?_⟩, fun h th hth e he => ?_⟩
    · obtain ⟨u, hu⟩ := List.getElem?_of_mem hth
      by_cases hut : t = u
      · subst hut
        cases Option.some.inj (ht.symm.trans hu)
        cases he
      · exact h th (List.mem_of_getElem? (i := u) (by rwa [List.getElem?_set_ne hut])) e he
    · obtain ⟨e, he⟩ := hthrown.mpr hφ
      exact h _ (List.mem_set hlt _) e he
    · rcases List.mem_or_eq_of_mem_set hth with hold | rfl
      · exact h.1 th hold e he
      · exact h.2 (hthrown.mp ⟨e, he⟩)
  | crash t =>
    have hcr := (Machine.step_crash hstep).1
    cases hcr
  | act a => exact a.elim

/-- The run lemma of `succeeds_step`. -/
theorem succeeds_play {c c' : Emitters} {ls} (hc : emissionDiscipline.Holds c)
    (h : emitters.play c ls = some c') :
    Succeeds c' ↔ Succeeds c ∧ emitters.Along LatestStillRead c ls := by
  induction ls generalizing c with
  | nil =>
    cases Option.some.inj h
    simp [Machine.Along]
  | cons l ls ih =>
    obtain ⟨d, hd, hp⟩ := Machine.play_cons.mp h
    have hstep := Discipline.holds_step hc trivial hd
    simp only [Machine.Along, hd, Option.some.injEq, forall_eq', ih hstep.1 hp,
      succeeds_step hc hd, and_assoc]

theorem recorded_play {w : World} {c : Emitters} {ls} (hw : ∀ r, Numbered w r)
    (h : emitters.play (.initial w) ls = some c) :
    emissionDiscipline.Holds c ∧ Recorded w c ∧ ∀ th ∈ c.threads, th.crashed = false :=
  Machine.play_invariant
    (J := fun c => emissionDiscipline.Holds c ∧ Recorded w c ∧
      ∀ th ∈ c.threads, th.crashed = false)
    (fun _ _ _ hc _ hs => ⟨(Discipline.holds_step hc.1 trivial hs).1, hc.2.1.step hc.1 hs,
      Machine.uncrashed_step rfl hs hc.2.2⟩)
    (Machine.along_true _ _) h
    ⟨Discipline.holds_initial hw, ⟨[], by simp [Config.initial], by simp [Config.initial]⟩,
      by simp [Config.initial]⟩

/-- Every call delivers its event in exactly the runs where no event of the same run is inserted
between the read and the insert of a call. -/
theorem events_delivered_iff {w : World} {c : Emitters} {ls} (hw : ∀ r, Numbered w r)
    (h : emitters.play (.initial w) ls = some c) :
    EventsDelivered w c ↔ emitters.Along LatestStillRead (.initial w) ls := by
  obtain ⟨hc, hrec, halive⟩ := recorded_play hw h
  have hsucceeds := succeeds_play (Discipline.holds_initial hw) h
  have hstart : Succeeds (.initial w) := fun th hth => by simp [Config.initial] at hth
  refine ⟨fun hd => (hsucceeds.mp hd.succeeds).2, fun hl =>
    ⟨hsucceeds.mpr ⟨hstart, hl⟩, hrec, fun th hth s hs => ?_, hc.1⟩⟩
  obtain ⟨t, ht⟩ := List.getElem?_of_mem hth
  obtain ⟨φ, hown, htr, -⟩ := hc.2 t th ht
  have hheld : storedEvent? th = φ.held := held_of_tracks (htr (halive th hth)) th.crashed
  rw [hs] at hheld
  cases φ with
  | stored i event =>
    cases Option.some.inj hheld
    exact hown.2
  | reading i => cases hheld
  | numbered i n => cases hheld
  | refused => cases hheld

/-- `run.started` of a worker and `run.cancelled` of the cancel route, for one run. -/
private def started : EmitAgentEventInput := ⟨1, 2, 3, .runStarted, "Agent run started", none⟩

private def cancelled : EmitAgentEventInput :=
  ⟨1, 2, 3, .runCancelled, "Agent run cancelled", none⟩

private def inTurn : List (Label api EmitAgentEventInput Empty) :=
  [.spawn started, .advance 0 .done, .advance 0 .done, .spawn cancelled, .advance 1 .done,
    .advance 1 .done, .advance 0 .done]

theorem events_delivered_in_turn :
    ∃ c, emitters.play (.initial .empty) inTurn = some c ∧ EventsDelivered .empty c := by
  obtain ⟨c, hp⟩ : ∃ c, emitters.play (.initial .empty) inTurn = some c := ⟨_, rfl⟩
  exact ⟨c, hp, (events_delivered_iff (w := .empty) (fun r => rfl) hp).mpr (by decide)⟩

/-- Both calls read the empty log; the second insert is rejected and its event is lost. -/
theorem emit_race_loses_event : ¬ ∀ (w : World) (ls) (c : Emitters), (∀ r, Numbered w r) →
    emitters.play (.initial w) ls = some c → EventsDelivered w c := by
  intro h
  have hd := h .empty [.spawn started, .spawn cancelled, .advance 0 .done, .advance 1 .done,
    .advance 0 .done, .advance 1 .done] _ (fun r => rfl) rfl
  exact hd.succeeds _ (List.mem_cons_of_mem _ (List.mem_singleton.mpr rfl)) duplicateKeyError rfl

end AppBuilder.Agent
