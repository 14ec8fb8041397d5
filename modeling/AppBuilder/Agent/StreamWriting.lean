import AppBuilder.Agent.SseHandler

/-! What a connection writes in every run: stored events, with numbers that go up. -/
namespace AppBuilder.Agent
namespace SseStream
open Async Store

/-- The events that were written. -/
def Handler.events (h : Handler) : List SerializedAgentEvent := h.written.filterMap Write.event?

/-- The message is an event of the log. -/
def Stored (log : List AgentEvent) (message : SerializedAgentEvent) : Prop :=
  ∃ event ∈ log, message = serializeAgentEvent event

section Writing

variable {log : List AgentEvent} {start : ℕ} {h : Handler} {event : SerializedAgentEvent}
  {writable : Bool} {events : List SerializedAgentEvent}

theorem writeEvent_cases (writable : Bool) (h : Handler) (event : SerializedAgentEvent) :
    (writeEvent writable h event = h ∧
      (h.closed = false → event.sequence ≤ h.lastWrittenSequence)) ∨
    (h.closed = false ∧ h.lastWrittenSequence < event.sequence ∧
      writeEvent writable h event = { h with
        written := h.written ++ [.publicEvent event]
        lastWrittenSequence := event.sequence }) ∨
    writeEvent writable h event = cleanup h := by
  unfold writeEvent
  split
  · next hskip =>
    refine .inl ⟨rfl, fun hopen => ?_⟩
    rw [hopen, Bool.false_or, decide_eq_true_eq] at hskip
    exact hskip
  · next hnew =>
    rw [Bool.or_eq_true, decide_eq_true_eq, not_or] at hnew
    cases writable with
    | true => exact .inr (.inl ⟨Bool.not_eq_true _ ▸ hnew.1, Nat.lt_of_not_le hnew.2, rfl⟩)
    | false => exact .inr (.inr rfl)

theorem events_concat (h : Handler) (event : SerializedAgentEvent) (last : ℕ) :
    Handler.events { h with
      written := h.written ++ [.publicEvent event]
      lastWrittenSequence := last } = h.events ++ [event] := by
  simp [Handler.events, Write.event?]

/-- The numbers of what was written go up from `start`. -/
structure Ascends (start : ℕ) (h : Handler) : Prop where
  increasing : h.events.Pairwise fun a b => a.sequence < b.sequence
  bounds : ∀ event ∈ h.events, start < event.sequence ∧ event.sequence ≤ h.lastWrittenSequence
  position : start ≤ h.lastWrittenSequence
  last : h.lastWrittenSequence = start ∨
    ∃ event ∈ h.events, event.sequence = h.lastWrittenSequence

theorem Ascends.writeEvent (ha : Ascends start h) (writable : Bool) (event : SerializedAgentEvent) :
    Ascends start (writeEvent writable h event) := by
  rcases writeEvent_cases writable h event with ⟨heq, -⟩ | ⟨-, hlt, heq⟩ | heq
  · rwa [heq]
  · rw [heq]
    have hpos := ha.position
    refine ⟨?_, ?_, by dsimp only; omega, .inr ⟨event, ?_, rfl⟩⟩
    · rw [events_concat, List.pairwise_append]
      refine ⟨ha.increasing, List.pairwise_singleton _ _, fun a hmem b hb => ?_⟩
      cases List.mem_singleton.mp hb
      exact Nat.lt_of_le_of_lt (ha.bounds a hmem).2 hlt
    · rw [events_concat]
      intro e he
      dsimp only
      rcases List.mem_append.mp he with he | he
      · have hbounds := ha.bounds e he
        omega
      · cases List.mem_singleton.mp he
        omega
    · rw [events_concat]
      exact List.mem_append_right _ (List.mem_singleton_self _)
  · rw [heq]
    exact ⟨ha.increasing, ha.bounds, ha.position, ha.last⟩

theorem Ascends.congr {h' : Handler} (ha : Ascends start h) (hevents : h'.events = h.events)
    (hlast : h'.lastWrittenSequence = h.lastWrittenSequence) : Ascends start h' := by
  obtain ⟨hincreasing, hbounds, hposition, hpast⟩ := ha
  rw [← hevents] at hincreasing hpast hbounds
  rw [← hlast] at hpast hbounds hposition
  exact ⟨hincreasing, hbounds, hposition, hpast⟩

/-- No event is left out below the last one that was written. -/
def Complete (log : List AgentEvent) (start : ℕ) (h : Handler) : Prop :=
  ∀ event ∈ log, start < event.sequence → event.sequence ≤ h.lastWrittenSequence →
    serializeAgentEvent event ∈ h.events

/-- The log is numbered upwards. -/
abbrev Ascending (log : List AgentEvent) : Prop := log.Pairwise fun a b => a.sequence < b.sequence

theorem eq_of_sequence (hlog : Ascending log) {a b : AgentEvent} (ha : a ∈ log) (hb : b ∈ log)
    (h : a.sequence = b.sequence) : a = b := by
  have hnodup : (log.map AgentEvent.sequence).Nodup :=
    List.pairwise_map.mpr (hlog.imp fun hlt => Nat.ne_of_lt hlt)
  exact List.inj_on_of_nodup_map hnodup ha hb h

theorem Complete.writeEvent (hc : Complete log start h) (hlog : Ascending log)
    (hstored : Stored log event) (writable : Bool)
    (hgap : h.closed = false → ∀ e ∈ log, start < e.sequence → e.sequence < event.sequence →
      e.sequence ≤ h.lastWrittenSequence) : Complete log start (writeEvent writable h event) := by
  rcases writeEvent_cases writable h event with ⟨heq, -⟩ | ⟨hopen, hlt, heq⟩ | heq
  · rwa [heq]
  · rw [heq]
    intro e he hstart hle
    rw [events_concat]
    obtain ⟨e', he', rfl⟩ := hstored
    rcases Nat.lt_or_eq_of_le hle with hless | hsame
    · exact List.mem_append_left _ (hc e he hstart (hgap hopen e he hstart hless))
    · rw [eq_of_sequence hlog he he' hsame]
      exact List.mem_append_right _ (List.mem_singleton_self _)
  · rw [heq]
    exact hc

/-- An open handler has passed the event. -/
theorem passes_writeEvent (hopen : (writeEvent writable h event).closed = false) :
    h.closed = false ∧ event.sequence ≤ (writeEvent writable h event).lastWrittenSequence ∧
      h.lastWrittenSequence ≤ (writeEvent writable h event).lastWrittenSequence := by
  rcases writeEvent_cases writable h event with ⟨heq, hpast⟩ | ⟨hwas, hlt, heq⟩ | heq
  · rw [heq] at hopen ⊢
    exact ⟨hopen, hpast hopen, Nat.le_refl _⟩
  · rw [heq]
    exact ⟨hwas, Nat.le_refl _, Nat.le_of_lt hlt⟩
  · rw [heq] at hopen
    cases hopen

/-- Events are written one after another, in the order of their numbers. -/
theorem fold_writes (writable : SerializedAgentEvent → Bool) (done : List SerializedAgentEvent)
    (hlog : Ascending log)
    (hsorted : events.Pairwise fun a b => a.sequence ≤ b.sequence)
    (hstored : ∀ event ∈ events, Stored log event)
    (hclosure : ∀ event ∈ events, ∀ e ∈ log, start < e.sequence → e.sequence < event.sequence →
      serializeAgentEvent e ∈ done ++ events)
    (hdone : h.closed = false → ∀ event ∈ done, event.sequence ≤ h.lastWrittenSequence)
    (hc : Complete log start h) :
    Complete log start (events.foldl (fun h event => writeEvent (writable event) h event) h) ∧
      ((events.foldl (fun h event => writeEvent (writable event) h event) h).closed = false →
        ∀ event ∈ done ++ events, event.sequence ≤
          (events.foldl (fun h event => writeEvent (writable event) h event)
            h).lastWrittenSequence) := by
  induction events generalizing h done with
  | nil =>
    rw [List.append_nil]
    exact ⟨hc, hdone⟩
  | cons event events ih =>
    obtain ⟨hfirst, hsorted⟩ := List.pairwise_cons.mp hsorted
    have hgap : h.closed = false → ∀ e ∈ log, start < e.sequence → e.sequence < event.sequence →
        e.sequence ≤ h.lastWrittenSequence := by
      intro hopen e he hstart hlt
      rcases List.mem_append.mp (hclosure event List.mem_cons_self e he hstart hlt) with hmem | hmem
      · exact hdone hopen _ hmem
      · have hle : event.sequence ≤ e.sequence := by
          rcases List.mem_cons.mp hmem with heq | hmem
          · rw [← heq]
            exact Nat.le_refl _
          · exact hfirst _ hmem
        omega
    have hmove : done ++ event :: events = (done ++ [event]) ++ events := by simp
    rw [List.foldl_cons]
    rw [hmove] at hclosure ⊢
    refine ih (done ++ [event]) hsorted (fun e he => hstored e (List.mem_cons_of_mem _ he))
      (fun e he => hclosure e (List.mem_cons_of_mem _ he)) (fun hopen e he => ?_)
      (hc.writeEvent hlog (hstored event List.mem_cons_self) _ hgap)
    obtain ⟨hwas, hpast, hmono⟩ := passes_writeEvent hopen
    rcases List.mem_append.mp he with he | he
    · exact Nat.le_trans (hdone hwas e he) hmono
    · cases List.mem_singleton.mp he
      exact hpast

end Writing

section Emitting

variable {w : World} {c c' : Emitters} {l : Label api EmitAgentEventInput Empty} {runId : ObjectId}

/-- What holds of the calls in every run. -/
structure Emitting (w : World) (c : Emitters) : Prop where
  holds : emissionDiscipline.Holds c
  recorded : Recorded w c
  uncrashed : ∀ th ∈ c.threads, th.crashed = false

theorem emitting_initial (hw : ∀ r, Numbered w r) : Emitting w (.initial w) :=
  ⟨Discipline.holds_initial hw, ⟨[], by simp [Config.initial], by simp [Config.initial]⟩,
    by simp [Config.initial]⟩

theorem Emitting.step (h : Emitting w c) (hstep : emitters.step c l = some c') : Emitting w c' :=
  ⟨(Discipline.holds_step h.holds trivial hstep).1, h.recorded.step h.holds hstep,
    Machine.uncrashed_step rfl hstep h.uncrashed⟩

theorem Emitting.ascending (h : Emitting w c) (runId : ObjectId) :
    Ascending (c.state.log runId) := by
  have hnumbered : Numbered c.state runId := h.holds.1 runId
  refine List.pairwise_map.mp ?_
  rw [hnumbered]
  exact List.pairwise_lt_range'

theorem Emitting.positive (h : Emitting w c) {event : AgentEvent}
    (hmem : event ∈ c.state.log runId) : 0 < event.sequence := by
  have hnumbered : Numbered c.state runId := h.holds.1 runId
  have hrange : event.sequence ∈ List.range' 1 (c.state.log runId).length :=
    hnumbered ▸ List.mem_map_of_mem hmem
  exact (List.mem_range'_1.mp hrange).1

/-- What is published is an event of the log of the run. -/
theorem Emitting.stored {message : SerializedAgentEvent} (h : Emitting w c)
    (hpub : message ∈ publishes runId c l) : Stored (c.state.log runId) message := by
  cases l with
  | advance t o =>
    rw [publishes] at hpub
    split at hpub
    · next channel m hpending =>
      split_ifs at hpub with hchannel
      swap
      · cases hpub
      cases hpub
      subst hchannel
      obtain ⟨th, next, ht, hprog⟩ := Config.of_pending hpending
      obtain ⟨φ, hown, hlive, -⟩ := h.holds.2 t th ht
      have hmem := List.mem_of_getElem? ht
      have htracks := hlive (h.uncrashed th hmem)
      rw [hprog] at htracks
      have hpermit : φ.permits (.publish channel message) := htracks.1
      obtain ⟨stored, hevents, hperm⟩ := h.recorded
      have hheld : storedEvent? th = some message := by
        rw [storedEvent?, hprog]
      have hin : message ∈ stored.map serializeAgentEvent :=
        hperm.subset (List.mem_filterMap.mpr ⟨th, hmem, hheld⟩)
      obtain ⟨event, hevent, rfl⟩ := List.mem_map.mp hin
      refine ⟨event, ?_, rfl⟩
      have hrun : event.runId = channel := by
        cases φ with
        | stored i found =>
          obtain ⟨rfl, heq⟩ := Op.publish.inj hpermit
          have hrunId := hown.2.runId
          rw [← heq] at hrunId
          rw [hown.1]
          exact hrunId
        | reading i => cases hpermit
        | numbered i n => cases hpermit
        | refused => cases hpermit
      rw [World.log, List.mem_filter]
      refine ⟨?_, beq_iff_eq.mpr hrun⟩
      rw [hevents]
      exact List.mem_append_right _ hevent
    · cases hpub
  | spawn input => cases hpub
  | crash t => cases hpub
  | act a => exact a.elim

/-- A step of a call appends to the log of a run, and only what the call was made for. -/
theorem Emitting.log_step (h : Emitting w c) (hstep : emitters.step c l = some c')
    (runId : ObjectId) : ∃ new, c'.state.log runId = c.state.log runId ++ new ∧
      ∀ event ∈ new, ∃ th ∈ c.threads, th.entry.runId = runId ∧
        event.userId = th.entry.userId := by
  cases l with
  | spawn input =>
    obtain ⟨-, rfl⟩ := Machine.step_spawn hstep
    exact ⟨[], (List.append_nil _).symm, fun _ hmem => nomatch hmem⟩
  | advance t o =>
    obtain ⟨input, op, next, ht, ha, rfl⟩ := Machine.step_advance hstep
    obtain ⟨φ, hown, hp, -⟩ := h.holds.advancing ht
    rw [emitters_perform ha]
    have hsame : ∀ w' : World, w'.events = c.state.events →
        w'.log runId = c.state.log runId ++ [] := by
      intro w' heq
      rw [World.log, heq, List.append_nil, World.log]
    cases φ with
    | reading i =>
      subst hp
      exact ⟨[], hsame _ rfl, fun _ hmem => nomatch hmem⟩
    | stored i event =>
      subst hp
      exact ⟨[], hsame _ rfl, fun _ hmem => nomatch hmem⟩
    | refused => cases hp
    | numbered i n =>
      subst hp
      obtain ⟨rfl, -, -⟩ := hown
      rcases World.createEvent_cases c.state t (i.document n) with ⟨-, hc⟩ | ⟨-, hc⟩
      · refine ⟨[], hsame _ ?_, fun _ hmem => nomatch hmem⟩
        simp only [World.exec, hc]
      · refine ⟨if i.runId = runId then [(c.state.insertEvent t (i.document n)).1] else [], ?_, ?_⟩
        · simp only [World.exec, hc]
          exact World.insertEvent_log _ _ _ _
        · intro event hmem
          split_ifs at hmem with hrun
          · cases List.mem_singleton.mp hmem
            exact ⟨_, List.mem_of_getElem? ht, hrun, rfl⟩
          · cases hmem
  | crash t =>
    have hcr := (Machine.step_crash hstep).1
    cases hcr
  | act a => exact a.elim

/-- Each new event is numbered after the ones before it. -/
theorem Emitting.new_after (h : Emitting w c') {new : List AgentEvent}
    (hlog : c'.state.log runId = c.state.log runId ++ new) :
    ∀ old ∈ c.state.log runId, ∀ event ∈ new, old.sequence < event.sequence := by
  have hascending := h.ascending runId
  rw [Ascending, hlog, List.pairwise_append] at hascending
  exact hascending.2.2

end Emitting

section Safety

variable {request : StreamRequest} {w : World} {s s' : Session} {l : SessionLabel}
  {ok : Session → SessionLabel → Prop}

/-- The number that the stream starts after. -/
def StreamRequest.start (request : StreamRequest) : ℕ := request.lastEventId.getD 0

theorem after_iff {event : AgentEvent} (h : 0 < event.sequence) :
    request.after event = true ↔ request.start < event.sequence := by
  rw [StreamRequest.after, StreamRequest.start]
  cases request.lastEventId with
  | none => simpa using h
  | some n => simp

theorem mem_loadDurableEvents {w : World} {message : SerializedAgentEvent} :
    message ∈ loadDurableEvents request w ↔ ∃ event ∈ w.log request.runId,
      event.userId = request.userId ∧ request.after event = true ∧
        message = serializeAgentEvent event := by
  rw [loadDurableEvents, inOrder, List.mem_insertionSort, List.mem_map]
  constructor
  · rintro ⟨event, hmem, rfl⟩
    obtain ⟨hmem, hkept⟩ := List.mem_filter.mp hmem
    rw [Bool.and_eq_true, beq_iff_eq] at hkept
    exact ⟨event, hmem, hkept.1, hkept.2, rfl⟩
  · rintro ⟨event, hmem, huser, hafter, rfl⟩
    exact ⟨event, List.mem_filter.mpr ⟨hmem, by simp [huser, hafter]⟩, rfl⟩

/-- What holds in every run: what is on its way to the client is stored, and what was written is
numbered upwards. -/
structure Sound (request : StreamRequest) (w : World) (s : Session) : Prop where
  emitting : Emitting w s.emitters
  published : ∀ message ∈ s.published, Stored (s.log request) message
  buffered : ∀ message ∈ s.handler.bufferedEvents, Stored (s.log request) message
  found : ∀ events, s.found = some events → ∀ message ∈ events, Stored (s.log request) message
  written : ∀ message ∈ s.handler.events, Stored (s.log request) message
  ascends : Ascends request.start s.handler

theorem Stored.grow {log new : List AgentEvent} {message : SerializedAgentEvent}
    (h : Stored log message) : Stored (log ++ new) message := by
  obtain ⟨event, hmem, heq⟩ := h
  exact ⟨event, List.mem_append_left _ hmem, heq⟩

theorem sound_initial (hw : ∀ r, Numbered w r) : Sound request w (.initial request w) where
  emitting := emitting_initial hw
  published := by
    intro message hmem
    obtain ⟨event, hevent, rfl⟩ := List.mem_map.mp hmem
    exact ⟨event, hevent, rfl⟩
  buffered _ hmem := absurd hmem List.not_mem_nil
  found := by rintro _ ⟨⟩
  written _ hmem := absurd hmem List.not_mem_nil
  ascends := ⟨List.Pairwise.nil, fun _ hmem => absurd hmem List.not_mem_nil, Nat.le_refl _, .inl rfl⟩

/-- A handler that has written no further event. -/
theorem Sound.handler {h : Handler} (hs : Sound request w s)
    (hevents : h.events = s.handler.events)
    (hlast : h.lastWrittenSequence = s.handler.lastWrittenSequence)
    (hbuffered : ∀ message ∈ h.bufferedEvents, Stored (s.log request) message) :
    Sound request w { s with handler := h } :=
  ⟨hs.emitting, hs.published, hbuffered, hs.found, fun m hm => hs.written m (hevents ▸ hm),
    hs.ascends.congr hevents hlast⟩

theorem written_writeEvent {h : Handler} {log : List AgentEvent} {event : SerializedAgentEvent}
    (hevent : Stored log event) (hw : ∀ message ∈ h.events, Stored log message)
    (writable : Bool) : ∀ message ∈ (writeEvent writable h event).events, Stored log message := by
  rcases writeEvent_cases writable h event with ⟨heq, -⟩ | ⟨-, -, heq⟩ | heq
  · rwa [heq]
  · rw [heq, events_concat]
    intro message hmem
    rcases List.mem_append.mp hmem with hmem | hmem
    · exact hw message hmem
    · exact List.mem_singleton.mp hmem ▸ hevent
  · rw [heq]
    exact hw

theorem control_writeEvent (h : Handler) (event : SerializedAgentEvent) (writable : Bool) :
    (writeEvent writable h event).backlogLoaded = h.backlogLoaded ∧
      (writeEvent writable h event).awaiting = h.awaiting := by
  rcases writeEvent_cases writable h event with ⟨heq, -⟩ | ⟨-, -, heq⟩ | heq
  · rw [heq]
    exact ⟨rfl, rfl⟩
  · rw [heq]
    exact ⟨rfl, rfl⟩
  · rw [heq]
    exact ⟨rfl, rfl⟩

theorem bufferedEvents_writeEvent (h : Handler) (event : SerializedAgentEvent) (writable : Bool) :
    (writeEvent writable h event).bufferedEvents = h.bufferedEvents := by
  rcases writeEvent_cases writable h event with ⟨heq, -⟩ | ⟨-, -, heq⟩ | heq
  · rw [heq]
  · rw [heq]
  · rw [heq, cleanup]

theorem fold_sound (writable : SerializedAgentEvent → Bool) {log : List AgentEvent} {start : ℕ}
    {events : List SerializedAgentEvent} {h : Handler}
    (hevents : ∀ event ∈ events, Stored log event) (hw : ∀ message ∈ h.events, Stored log message)
    (ha : Ascends start h) :
    let done := events.foldl (fun h event => writeEvent (writable event) h event) h
    (∀ message ∈ done.events, Stored log message) ∧ Ascends start done ∧
      done.bufferedEvents = h.bufferedEvents := by
  induction events generalizing h with
  | nil => exact ⟨hw, ha, rfl⟩
  | cons event events ih =>
    have hnext := ih (fun e he => hevents e (List.mem_cons_of_mem _ he))
      (written_writeEvent (hevents event List.mem_cons_self) hw (writable event))
      (ha.writeEvent (writable event) event)
    rw [bufferedEvents_writeEvent] at hnext
    exact hnext

theorem sound_drain (writable : SerializedAgentEvent → Bool) {events : List SerializedAgentEvent}
    (hs : Sound request w s) (hevents : ∀ event ∈ events, Stored (s.log request) event) :
    Sound request w { s with handler := drain writable s.handler events } := by
  have hall : ∀ event ∈ inOrder (events ++ s.handler.bufferedEvents),
      Stored (s.log request) event := by
    intro event hmem
    rw [inOrder, List.mem_insertionSort] at hmem
    rcases List.mem_append.mp hmem with hmem | hmem
    · exact hevents event hmem
    · exact hs.buffered event hmem
  obtain ⟨hwritten, hascends, hbuffered⟩ :=
    fold_sound writable hall hs.written hs.ascends
  exact ⟨hs.emitting, hs.published, fun m hm => hs.buffered m (hbuffered ▸ hm), hs.found, hwritten,
    hascends.congr rfl rfl⟩

theorem sound_message {writable : Bool} {message : SerializedAgentEvent} {delivered : ℕ}
    (hs : Sound request w s) (hmessage : Stored (s.log request) message) :
    Sound request w { s with
      delivered := delivered
      handler := messageHandler request.runId writable s.handler message } := by
  unfold messageHandler
  split
  · exact ⟨hs.emitting, hs.published, hs.buffered, hs.found, hs.written, hs.ascends⟩
  · split
    · refine ⟨hs.emitting, hs.published, fun m hm => ?_, hs.found, hs.written, ?_⟩
      · rcases List.mem_append.mp hm with hm | hm
        · exact hs.buffered m hm
        · exact List.mem_singleton.mp hm ▸ hmessage
      · exact hs.ascends.congr rfl rfl
    · refine ⟨hs.emitting, hs.published, fun m hm => ?_, hs.found,
        written_writeEvent hmessage hs.written writable, hs.ascends.writeEvent writable message⟩
      dsimp only at hm
      rw [bufferedEvents_writeEvent] at hm
      exact hs.buffered m hm

theorem events_writeHeartbeat (writable : Bool) (h : Handler) :
    (writeHeartbeat writable h).events = h.events ∧
      (writeHeartbeat writable h).lastWrittenSequence = h.lastWrittenSequence ∧
      (writeHeartbeat writable h).bufferedEvents = h.bufferedEvents := by
  unfold writeHeartbeat
  split
  · exact ⟨rfl, rfl, rfl⟩
  · split
    · exact ⟨by simp [Handler.events, Write.event?], rfl, rfl⟩
    · exact ⟨rfl, rfl, rfl⟩

/-- The step lemma of what holds in every run. -/
theorem sound_step (hs : Sound request w s) (hstep : s.step request l = some s') :
    Sound request w s' := by
  cases l with
  | emit l =>
    obtain ⟨c, hc, rfl⟩ := Option.map_eq_some_iff.mp hstep
    obtain ⟨new, hlog, -⟩ := hs.emitting.log_step hc request.runId
    have hgrow : ∀ message, Stored (s.log request) message →
        Stored (c.state.log request.runId) message := fun message hm => hlog ▸ hm.grow
    refine ⟨hs.emitting.step hc, fun m hm => ?_, fun m hm => hgrow m (hs.buffered m hm),
      fun events he m hm => hgrow m (hs.found events he m hm), fun m hm => hgrow m (hs.written m hm),
      hs.ascends⟩
    rcases List.mem_append.mp hm with hm | hm
    · exact hgrow m (hs.published m hm)
    · exact hgrow m (hs.emitting.stored (Option.mem_toList.mp hm))
  | subscribe =>
    rw [Session.step] at hstep
    split_ifs at hstep
    cases hstep
    exact ⟨hs.emitting, hs.published, hs.buffered, hs.found, hs.written, hs.ascends⟩
  | acknowledge =>
    rw [Session.step] at hstep
    split_ifs at hstep
    · cases hstep
      exact hs.handler rfl rfl hs.buffered
    · cases hstep
      exact hs.handler rfl rfl hs.buffered
  | refuse =>
    rw [Session.step] at hstep
    split_ifs at hstep
    cases hstep
    exact hs.handler rfl rfl hs.buffered
  | query =>
    rw [Session.step] at hstep
    split_ifs at hstep
    cases hstep
    refine ⟨hs.emitting, hs.published, hs.buffered, fun events he m hm => ?_, hs.written, hs.ascends⟩
    cases he
    obtain ⟨event, hmem, -, -, heq⟩ := mem_loadDurableEvents.mp hm
    exact ⟨event, hmem, heq⟩
  | load writable =>
    rw [Session.step] at hstep
    split at hstep
    · next events _ hfound =>
      split_ifs at hstep
      · cases hstep
        exact hs.handler rfl rfl hs.buffered
      · cases hstep
        exact sound_drain writable hs (hs.found events hfound)
    · cases hstep
  | loadFails =>
    rw [Session.step] at hstep
    split_ifs at hstep
    cases hstep
    exact hs.handler rfl rfl hs.buffered
  | deliver writable =>
    rw [Session.step] at hstep
    split at hstep
    · next message hmessage =>
      cases hstep
      obtain ⟨start, -, hget⟩ := Option.bind_eq_some_iff.mp hmessage
      exact sound_message hs (hs.published message (List.mem_of_getElem? hget))
    · cases hstep
  | beat writable =>
    rw [Session.step] at hstep
    split_ifs at hstep
    cases hstep
    obtain ⟨hevents, hlast, hbuffered⟩ := events_writeHeartbeat writable s.handler
    exact hs.handler hevents hlast fun m hm => hs.buffered m (hbuffered ▸ hm)
  | disconnect =>
    cases hstep
    exact hs.handler rfl rfl hs.buffered

theorem sound_reached (hw : ∀ r, Numbered w r) (h : Session.Reached request ok w s) :
    Sound request w s := by
  induction h with
  | start => exact sound_initial hw
  | step _ _ hstep ih => exact sound_step ih hstep

end Safety

end SseStream
end AppBuilder.Agent
