import AppBuilder.Agent.StreamWriting
import AppBuilder.Listing.Batch

/-! Where events are published in the order of their numbers, a connection leaves no stored event
out. -/
namespace AppBuilder.Agent
namespace SseStream
open Async Store

section Order

variable {request : StreamRequest} {w : World} {s s' : Session} {l : SessionLabel}

/-- The messages that have reached the handler. -/
def Session.received (s : Session) : List SerializedAgentEvent :=
  (s.published.drop (s.subscribed.getD 0)).take s.delivered

/-- What holds as well where events are published in order: the messages before the subscription are
in the backlog, those after it are buffered or written, and so nothing is left out. -/
structure InOrder (request : StreamRequest) (s : Session) : Prop where
  users : ∀ event ∈ s.log request, event.userId = request.userId
  inputs : ∀ th ∈ s.emitters.threads, th.entry.runId = request.runId →
    th.entry.userId = request.userId
  ordered : ∀ before message later, s.published = before ++ message :: later →
    ∀ event ∈ s.log request, event.sequence < message.sequence →
      serializeAgentEvent event ∈ before
  range : ∀ start, s.subscribed = some start → start + s.delivered ≤ s.published.length
  waiting : s.subscribed = none → s.delivered = 0 ∧ s.handler.backlogLoaded = false ∧
    s.handler.awaiting ≠ .backlog ∧ s.found = none
  idle : s.handler.backlogLoaded = true → s.handler.awaiting = .nothing
  before : ∀ events start, s.found = some events → s.subscribed = some start →
    ∀ message ∈ s.published.take start, request.start < message.sequence → message ∈ events
  backlog : ∀ events, s.found = some events → ∀ message ∈ events, ∀ event ∈ s.log request,
    request.start < event.sequence → event.sequence < message.sequence →
      serializeAgentEvent event ∈ events
  buffering : s.handler.backlogLoaded = false → s.handler.closed = false →
    s.handler.bufferedEvents = s.received
  loaded : s.handler.backlogLoaded = true → s.handler.closed = false →
    ∀ start, s.subscribed = some start → ∀ message ∈ s.published.take (start + s.delivered),
      message.sequence ≤ s.handler.lastWrittenSequence
  complete : Complete (s.log request) request.start s.handler

theorem Complete.congr {log : List AgentEvent} {start : ℕ} {h h' : Handler}
    (hc : Complete log start h) (hevents : h'.events = h.events)
    (hlast : h'.lastWrittenSequence = h.lastWrittenSequence) : Complete log start h' := by
  intro event hmem hstart hle
  rw [hevents]
  exact hc event hmem hstart (hlast ▸ hle)

theorem inOrder_initial (hw : ∀ r, Numbered w r)
    (husers : ∀ event ∈ w.log request.runId, event.userId = request.userId) :
    InOrder request (.initial request w) where
  users := husers
  inputs _ hmem := absurd hmem List.not_mem_nil
  ordered before message later heq event hmem hlt := by
    have hascending := (emitting_initial hw).ascending request.runId
    have hsorted : (before ++ message :: later).Pairwise fun a b => a.sequence < b.sequence :=
      heq ▸ List.pairwise_map.mpr hascending
    have hin : serializeAgentEvent event ∈ before ++ message :: later :=
      heq ▸ List.mem_map_of_mem hmem
    rcases List.mem_append.mp hin with hin | hin
    · exact hin
    · have hrest := List.pairwise_cons.mp (List.pairwise_append.mp hsorted).2.1
      rcases List.mem_cons.mp hin with heq | hin
      · rw [← heq] at hlt
        exact absurd hlt (Nat.lt_irrefl _)
      · exact absurd hlt (Nat.lt_asymm (hrest.1 _ hin))
  range := by rintro _ ⟨⟩
  waiting _ := ⟨rfl, rfl, by rintro ⟨⟩, rfl⟩
  idle := by rintro ⟨⟩
  before := by rintro _ _ ⟨⟩
  backlog := by rintro _ ⟨⟩
  buffering _ _ := rfl
  loaded := by rintro ⟨⟩
  complete event _ hstart hle := absurd (Nat.lt_of_lt_of_le hstart hle) (Nat.lt_irrefl _)

/-- A handler that has written no further event, and not taken one either. -/
theorem InOrder.handler {h : Handler} (hi : InOrder request s)
    (hevents : h.events = s.handler.events)
    (hlast : h.lastWrittenSequence = s.handler.lastWrittenSequence)
    (hbuffered : h.bufferedEvents = s.handler.bufferedEvents)
    (hloaded : h.backlogLoaded = s.handler.backlogLoaded)
    (hopen : h.closed = false → s.handler.closed = false)
    (hwaiting : s.subscribed = none → h.awaiting ≠ .backlog)
    (hidle : h.backlogLoaded = true → h.awaiting = .nothing) :
    InOrder request { s with handler := h } where
  users := hi.users
  inputs := hi.inputs
  ordered := hi.ordered
  range := hi.range
  waiting hnone := by
    obtain ⟨hdelivered, hnot, -, hfound⟩ := hi.waiting hnone
    exact ⟨hdelivered, hloaded.trans hnot, hwaiting hnone, hfound⟩
  idle := hidle
  before := hi.before
  backlog := hi.backlog
  buffering hnot hclosed := hbuffered.trans (hi.buffering (hloaded ▸ hnot) (hopen hclosed))
  loaded hyes hclosed start hstart message hmem :=
    hlast ▸ hi.loaded (hloaded ▸ hyes) (hopen hclosed) start hstart message hmem
  complete := hi.complete.congr hevents hlast

theorem inputs_step {c : Emitters} {l : Label api EmitAgentEventInput Empty}
    (hi : ∀ th ∈ s.emitters.threads, th.entry.runId = request.runId →
      th.entry.userId = request.userId)
    (hok : PublishedInOrder request s (.emit l)) (hstep : emitters.step s.emitters l = some c) :
    ∀ th ∈ c.threads, th.entry.runId = request.runId → th.entry.userId = request.userId := by
  intro th hth
  cases l with
  | spawn input =>
    obtain ⟨-, rfl⟩ := Machine.step_spawn hstep
    rcases List.mem_append.mp hth with hth | hth
    · exact hi th hth
    · rw [List.mem_singleton.mp hth]
      exact hok
  | advance t o =>
    obtain ⟨input, op, next, ht, -, rfl⟩ := Machine.step_advance hstep
    rcases List.mem_or_eq_of_mem_set hth with hth | rfl
    · exact hi th hth
    · exact hi ⟨input, .await op next, false⟩ (List.mem_of_getElem? ht)
  | crash t =>
    have hcr := (Machine.step_crash hstep).1
    cases hcr
  | act a => exact a.elim

theorem published_earlier {l : Label api EmitAgentEventInput Empty}
    {message : SerializedAgentEvent} (hok : PublishedInOrder request s (.emit l))
    (hmessage : message ∈ publishes request.runId s.emitters l) :
    ∀ event ∈ s.log request, event.sequence < message.sequence →
      serializeAgentEvent event ∈ s.published := by
  cases l with
  | spawn input => cases hmessage
  | advance t o => exact hok message hmessage
  | crash t => cases hmessage
  | act a => exact a.elim

/-- A step of a call keeps the order. -/
theorem inOrder_emit {c : Emitters} {l : Label api EmitAgentEventInput Empty}
    (hs : Sound request w s) (hi : InOrder request s)
    (hok : PublishedInOrder request s (.emit l)) (hstep : emitters.step s.emitters l = some c) :
    InOrder request { s with
      emitters := c
      published := s.published ++ (publishes request.runId s.emitters l).toList } := by
  obtain ⟨new, hlog, hnew⟩ := hs.emitting.log_step hstep request.runId
  have hafter := (hs.emitting.step hstep).new_after hlog
  have hin : ∀ event ∈ c.state.log request.runId, event ∈ s.log request ∨ event ∈ new :=
    fun event hmem => List.mem_append.mp (hlog ▸ hmem)
  have hlate : ∀ message, Stored (s.log request) message → ∀ event ∈ new,
      message.sequence < event.sequence := by
    rintro _ ⟨old, hold, rfl⟩ event hmem
    exact hafter old hold event hmem
  refine ⟨?_, ?_, ?_, ?_, hi.waiting, hi.idle, ?_, ?_, ?_, ?_, ?_⟩
  · intro event hmem
    rcases hin event hmem with hmem | hmem
    · exact hi.users event hmem
    · obtain ⟨th, hth, hrun, huser⟩ := hnew event hmem
      exact huser.trans (hi.inputs th hth hrun)
  · exact inputs_step hi.inputs hok hstep
  · intro before message later heq event hevent hlt
    dsimp only at heq
    have hnow : message ∈ (publishes request.runId s.emitters l).toList →
        serializeAgentEvent event ∈ s.published := by
      intro hmessage
      rw [Option.mem_toList] at hmessage
      rcases hin event hevent with hevent | hevent
      · exact published_earlier hok hmessage event hevent hlt
      · have hless := hlate message (hs.emitting.stored hmessage) event hevent
        omega
    rcases List.append_eq_append_iff.mp heq with ⟨rest, hbefore, hextra⟩ | ⟨rest, hpub, hrest⟩
    · rw [hbefore]
      refine List.mem_append_left _ (hnow ?_)
      rw [hextra]
      exact List.mem_append_right _ List.mem_cons_self
    · cases rest with
      | nil =>
        rw [List.append_nil] at hpub
        rw [← hpub]
        refine hnow ?_
        rw [← List.nil_append (Option.toList _), ← hrest]
        exact List.mem_cons_self
      | cons first rest =>
        obtain ⟨rfl, -⟩ := List.cons.inj hrest
        rcases hin event hevent with hevent | hevent
        · exact hi.ordered before message rest hpub event hevent hlt
        · have hmem : message ∈ s.published := by
            rw [hpub]
            exact List.mem_append_right _ List.mem_cons_self
          have hless := hlate message (hs.published message hmem) event hevent
          omega
  · intro start hstart
    dsimp only
    rw [List.length_append]
    exact Nat.le_add_right_of_le (hi.range start hstart)
  · intro events start hfound hstart message hmem
    have hlength := Nat.le_of_add_right_le (hi.range start hstart)
    dsimp only at hmem
    rw [List.take_append_of_le_length hlength] at hmem
    exact hi.before events start hfound hstart message hmem
  · intro events hfound message hmem event hevent hstart hlt
    rcases hin event hevent with hevent | hevent
    · exact hi.backlog events hfound message hmem event hevent hstart hlt
    · have hless := hlate message (hs.found events hfound message hmem) event hevent
      omega
  · intro hnot hopen
    refine (hi.buffering hnot hopen).trans ?_
    rw [Session.received, Session.received]
    cases hsub : s.subscribed with
    | none => rw [(hi.waiting hsub).1, List.take_zero, List.take_zero]
    | some start =>
      have hrange := hi.range start hsub
      dsimp only [Option.getD_some]
      rw [List.drop_append_of_le_length (by omega), List.take_append_of_le_length]
      rw [List.length_drop]
      omega
  · intro hyes hopen start hstart message hmem
    dsimp only at hmem
    rw [List.take_append_of_le_length (hi.range start hstart)] at hmem
    exact hi.loaded hyes hopen start hstart message hmem
  · intro event hmem hstart hle
    rcases hin event hmem with hmem | hmem
    · exact hi.complete event hmem hstart hle
    · rcases hs.ascends.last with hlast | ⟨message, hmessage, hlast⟩
      · dsimp only at hle
        omega
      · have hless := hlate message (hs.written message hmessage) event hmem
        dsimp only at hle
        omega

theorem inOrder_subscribe (hi : InOrder request s) (hnone : s.subscribed = none) :
    InOrder request { s with subscribed := some s.published.length } := by
  obtain ⟨hdelivered, hnot, hawaiting, hfound⟩ := hi.waiting hnone
  refine ⟨hi.users, hi.inputs, hi.ordered, ?_, by rintro ⟨⟩, hi.idle, ?_, hi.backlog, ?_, ?_,
    hi.complete⟩
  · intro start hstart
    cases hstart
    dsimp only
    rw [hdelivered, Nat.add_zero]
  · intro events start hevents
    rw [hfound] at hevents
    cases hevents
  · intro hloaded hopen
    refine (hi.buffering hloaded hopen).trans ?_
    rw [Session.received, Session.received, hdelivered, List.take_zero, List.take_zero]
  · intro hloaded
    rw [hnot] at hloaded
    cases hloaded

theorem inOrder_query (hs : Sound request w s) (hi : InOrder request s)
    (hawaiting : s.handler.awaiting = .backlog) :
    InOrder request { s with found := some (loadDurableEvents request s.emitters.state) } := by
  have hfinds : ∀ event ∈ s.log request, request.start < event.sequence →
      serializeAgentEvent event ∈ loadDurableEvents request s.emitters.state :=
    fun event hmem hstart => mem_loadDurableEvents.mpr ⟨event, hmem, hi.users event hmem,
      (after_iff (hs.emitting.positive hmem)).mpr hstart, rfl⟩
  refine ⟨hi.users, hi.inputs, hi.ordered, hi.range, ?_, hi.idle, ?_, ?_, hi.buffering, hi.loaded,
    hi.complete⟩
  · intro hnone
    exact absurd hawaiting (hi.waiting hnone).2.2.1
  · rintro _ start ⟨⟩ hstart message hmem hafter
    obtain ⟨event, hevent, rfl⟩ := hs.published message (List.mem_of_mem_take hmem)
    exact hfinds event hevent hafter
  · rintro _ ⟨⟩ message _ event hevent hstart _
    exact hfinds event hevent hstart

/-- The messages that have reached the handler, and those published before them. -/
theorem published_split {start : ℕ} (hstart : s.subscribed = some start) :
    s.published.take (start + s.delivered) = s.published.take start ++ s.received := by
  rw [Session.received, hstart, Option.getD_some, List.take_add]

/-- The backlog with the buffer has what comes before each of its events. -/
theorem InOrder.closure (hi : InOrder request s) {events : List SerializedAgentEvent} {start : ℕ}
    (hfound : s.found = some events) (hstart : s.subscribed = some start) :
    ∀ message ∈ events ++ s.received, ∀ event ∈ s.log request, request.start < event.sequence →
      event.sequence < message.sequence → serializeAgentEvent event ∈ events ++ s.received := by
  intro message hmem event hevent hafter hlt
  rcases List.mem_append.mp hmem with hmem | hmem
  · exact List.mem_append_left _ (hi.backlog events hfound message hmem event hevent hafter hlt)
  · obtain ⟨early, late, hsplit⟩ := List.append_of_mem hmem
    have hpublished : s.published = (s.published.take start ++ early) ++ message ::
        (late ++ s.published.drop (start + s.delivered)) := by
      conv_lhs => rw [← List.take_append_drop (start + s.delivered) s.published,
        published_split hstart, hsplit]
      simp only [List.append_assoc, List.cons_append]
    rcases List.mem_append.mp (hi.ordered _ _ _ hpublished event hevent hlt) with hin | hin
    · exact List.mem_append_left _ (hi.before events start hfound hstart _ hin hafter)
    · refine List.mem_append_right _ ?_
      rw [hsplit]
      exact List.mem_append_left _ hin

theorem pairwise_inOrder (events : List SerializedAgentEvent) :
    (inOrder events).Pairwise fun a b => a.sequence ≤ b.sequence :=
  Listing.pairwise_insertionSort_le SerializedAgentEvent.sequence events

theorem inOrder_drain {events : List SerializedAgentEvent} {writable : SerializedAgentEvent → Bool}
    (hs : Sound request w s) (hi : InOrder request s) (hawaiting : s.handler.awaiting = .backlog)
    (hopen : s.handler.closed = false) (hfound : s.found = some events) :
    InOrder request { s with handler := drain writable s.handler events } := by
  obtain ⟨start, hstart⟩ : ∃ start, s.subscribed = some start := by
    refine Option.ne_none_iff_exists'.mp fun hnone => ?_
    exact (hi.waiting hnone).2.2.1 hawaiting
  have hnot : s.handler.backlogLoaded = false := by
    refine Bool.not_eq_true _ ▸ fun hloaded => ?_
    rw [hi.idle hloaded] at hawaiting
    cases hawaiting
  have hbuffered := hi.buffering hnot hopen
  have hmem : ∀ message, message ∈ inOrder (events ++ s.handler.bufferedEvents) ↔
      message ∈ events ++ s.received := by
    intro message
    rw [inOrder, List.mem_insertionSort, hbuffered]
  obtain ⟨hcomplete, hpast⟩ := fold_writes writable []
    (hs.emitting.ascending request.runId) (pairwise_inOrder (events ++ s.handler.bufferedEvents))
    (fun message hm => by
      rcases List.mem_append.mp ((hmem message).mp hm) with hm | hm
      · exact hs.found events hfound message hm
      · exact hs.published message (List.mem_of_mem_drop (List.mem_of_mem_take hm)))
    (fun message hm event hevent hafter hlt => (hmem _).mpr
      (hi.closure hfound hstart message ((hmem _).mp hm) event hevent hafter hlt))
    (by rintro _ _ ⟨⟩) hi.complete
  refine ⟨hi.users, hi.inputs, hi.ordered, hi.range, ?_, fun _ => rfl, hi.before, hi.backlog,
    by rintro ⟨⟩, ?_, hcomplete⟩
  · intro hnone
    rw [hstart] at hnone
    cases hnone
  · intro _ hstill start' hstart' message hm
    cases hstart.symm.trans hstart'
    have hposition := (sound_drain writable hs (hs.found events hfound)).ascends.position
    dsimp only at hm
    rw [published_split hstart] at hm
    rcases List.mem_append.mp hm with hm | hm
    · rcases Nat.lt_or_ge request.start message.sequence with hafter | hle
      · refine hpast hstill message ((hmem message).mpr (List.mem_append_left _ ?_))
        exact hi.before events start hfound hstart message hm hafter
      · exact Nat.le_trans hle hposition
    · exact hpast hstill message ((hmem message).mpr (List.mem_append_right _ hm))

theorem Stored.runId {message : SerializedAgentEvent} (h : Stored (s.log request) message) :
    message.runId = request.runId := by
  obtain ⟨event, hmem, rfl⟩ := h
  rw [Session.log, World.log, List.mem_filter, beq_iff_eq] at hmem
  exact hmem.2

theorem take_next {α : Type} {l : List α} {n : ℕ} {a : α} (h : l[n]? = some a) :
    l.take (n + 1) = l.take n ++ [a] := by
  rw [List.take_add_one, h, Option.toList_some]

theorem inOrder_deliver {message : SerializedAgentEvent} {writable : Bool} {start : ℕ}
    (hs : Sound request w s) (hi : InOrder request s) (hstart : s.subscribed = some start)
    (hmessage : s.published[start + s.delivered]? = some message) :
    InOrder request { s with
      delivered := s.delivered + 1
      handler := messageHandler request.runId writable s.handler message } := by
  obtain ⟨hlength, -⟩ := List.getElem?_eq_some_iff.mp hmessage
  have hstored := hs.published message (List.mem_of_getElem? hmessage)
  have hnext := take_next hmessage
  have hrange : ∀ start', s.subscribed = some start' →
      start' + (s.delivered + 1) ≤ s.published.length := by
    intro start' hstart'
    cases hstart.symm.trans hstart'
    omega
  have hwaiting : s.subscribed ≠ none := by
    rw [hstart]
    exact Option.some_ne_none start
  unfold messageHandler
  split
  · next hskip =>
    have hclosed : s.handler.closed = true := hskip.resolve_left (not_not.mpr hstored.runId)
    exact ⟨hi.users, hi.inputs, hi.ordered, hrange, fun hnone => absurd hnone hwaiting, hi.idle,
      hi.before, hi.backlog, fun _ hopen => absurd (hopen.symm.trans hclosed) Bool.false_ne_true,
      fun _ hopen => absurd (hopen.symm.trans hclosed) Bool.false_ne_true, hi.complete⟩
  · next hkeep =>
    rw [not_or, Bool.not_eq_true] at hkeep
    obtain ⟨-, hopen⟩ := hkeep
    cases hloaded : s.handler.backlogLoaded with
    | false =>
      refine ⟨hi.users, hi.inputs, hi.ordered, hrange, fun hnone => absurd hnone hwaiting, ?_,
        hi.before, hi.backlog, ?_, ?_, hi.complete⟩
      · rintro ⟨⟩
      · intro _ _
        have hreceived : s.received ++ [message] =
            (s.published.drop start).take (s.delivered + 1) := by
          rw [Session.received, hstart, Option.getD_some]
          exact (take_next (by rw [List.getElem?_drop, hmessage])).symm
        change s.handler.bufferedEvents ++ [message] = _
        rw [hi.buffering hloaded hopen, hreceived]
        dsimp only [Session.received]
        rw [hstart, Option.getD_some]
      · rintro ⟨⟩
    | true =>
      have hlate := hi.loaded hloaded hopen start hstart
      have hsplit : s.published = s.published.take (start + s.delivered) ++ message ::
          s.published.drop (start + s.delivered + 1) := by
        rw [← List.singleton_append, ← List.append_assoc, ← hnext, List.take_append_drop]
      obtain ⟨hcontrol, hawait⟩ := control_writeEvent s.handler message writable
      refine ⟨hi.users, hi.inputs, hi.ordered, hrange, fun hnone => absurd hnone hwaiting, ?_,
        hi.before, hi.backlog, ?_, ?_, ?_⟩
      · intro _
        exact hawait.trans (hi.idle hloaded)
      · intro hnot
        exact absurd (hnot.symm.trans (hcontrol.trans hloaded)) Bool.false_ne_true
      · intro _ hstill start' hstart' m hm
        cases hstart.symm.trans hstart'
        obtain ⟨-, hpast, hmono⟩ := passes_writeEvent hstill
        dsimp only at hm
        rw [← Nat.add_assoc, hnext] at hm
        rcases List.mem_append.mp hm with hm | hm
        · exact Nat.le_trans (hlate m hm) hmono
        · exact List.mem_singleton.mp hm ▸ hpast
      · refine hi.complete.writeEvent (hs.emitting.ascending request.runId) hstored writable ?_
        intro _ event hevent _ hlt
        exact hlate _ (hi.ordered _ _ _ hsplit event hevent hlt)

theorem inOrder_beat (hi : InOrder request s) (writable : Bool) :
    InOrder request { s with handler := writeHeartbeat writable s.handler } := by
  obtain ⟨hevents, hlast, hbuffered⟩ := events_writeHeartbeat writable s.handler
  have hcontrol : (writeHeartbeat writable s.handler).backlogLoaded = s.handler.backlogLoaded ∧
      (writeHeartbeat writable s.handler).awaiting = s.handler.awaiting ∧
      ((writeHeartbeat writable s.handler).closed = false → s.handler.closed = false) := by
    unfold writeHeartbeat
    split
    · exact ⟨rfl, rfl, id⟩
    · split
      · exact ⟨rfl, rfl, id⟩
      · exact ⟨rfl, rfl, by rintro ⟨⟩⟩
  refine hi.handler hevents hlast hbuffered hcontrol.1 hcontrol.2.2 (fun hnone => ?_)
    fun hloaded => ?_
  · rw [hcontrol.2.1]
    exact (hi.waiting hnone).2.2.1
  · rw [hcontrol.2.1]
    exact hi.idle (hcontrol.1 ▸ hloaded)

/-- The step lemma of runs in which events are published in order. -/
theorem inOrder_step (hs : Sound request w s) (hi : InOrder request s)
    (hok : PublishedInOrder request s l) (hstep : s.step request l = some s') :
    InOrder request s' := by
  cases l with
  | emit l =>
    obtain ⟨c, hc, rfl⟩ := Option.map_eq_some_iff.mp hstep
    exact inOrder_emit hs hi hok hc
  | subscribe =>
    rw [Session.step] at hstep
    split_ifs at hstep with hnone
    cases hstep
    exact inOrder_subscribe hi hnone
  | acknowledge =>
    rw [Session.step] at hstep
    split_ifs at hstep with hawaiting hclosed
    · cases hstep
      refine hi.handler rfl rfl rfl rfl id (fun hnone => absurd hnone hawaiting.2) fun _ => rfl
    · cases hstep
      refine hi.handler rfl rfl rfl rfl id (fun hnone => absurd hnone hawaiting.2) fun hloaded => ?_
      cases hawaiting.1.symm.trans (hi.idle hloaded)
  | refuse =>
    rw [Session.step] at hstep
    split_ifs at hstep
    cases hstep
    exact hi.handler rfl rfl rfl rfl (by rintro ⟨⟩) (by rintro _ ⟨⟩) fun _ => rfl
  | query =>
    rw [Session.step] at hstep
    split_ifs at hstep with hawaiting
    cases hstep
    exact inOrder_query hs hi hawaiting.1
  | load writable =>
    rw [Session.step] at hstep
    split at hstep
    · next events hawaiting hfound =>
      split_ifs at hstep with hclosed
      · cases hstep
        exact hi.handler rfl rfl rfl rfl id (by rintro _ ⟨⟩) fun _ => rfl
      · cases hstep
        exact inOrder_drain hs hi hawaiting (Bool.not_eq_true _ ▸ hclosed) hfound
    · cases hstep
  | loadFails =>
    rw [Session.step] at hstep
    split_ifs at hstep
    cases hstep
    exact hi.handler rfl rfl rfl rfl (by rintro ⟨⟩) (by rintro _ ⟨⟩) fun _ => rfl
  | deliver writable =>
    rw [Session.step] at hstep
    split at hstep
    · next message hmessage =>
      cases hstep
      obtain ⟨start, hstart, hget⟩ := Option.bind_eq_some_iff.mp hmessage
      exact inOrder_deliver hs hi hstart hget
    · cases hstep
  | beat writable =>
    rw [Session.step] at hstep
    split_ifs at hstep
    cases hstep
    exact inOrder_beat hi writable
  | disconnect =>
    cases hstep
    exact hi.handler rfl rfl rfl rfl (by rintro ⟨⟩) (fun hnone => (hi.waiting hnone).2.2.1) hi.idle

theorem inOrder_reached {ok : Session → SessionLabel → Prop}
    (hok : ∀ s l, ok s l → PublishedInOrder request s l) (hw : ∀ r, Numbered w r)
    (husers : ∀ event ∈ w.log request.runId, event.userId = request.userId)
    (h : Session.Reached request ok w s) : InOrder request s := by
  induction h with
  | start => exact inOrder_initial hw husers
  | step h hl hstep ih => exact inOrder_step (sound_reached hw h) ih (hok _ _ hl) hstep

/-- What the client is to be told. -/
def Session.owed (request : StreamRequest) (s : Session) : List SerializedAgentEvent :=
  ((s.log request).filter request.after).map serializeAgentEvent

/-- The connection is open and through its backlog, every stored event has been published, and every
message has been delivered. -/
structure Session.CaughtUp (request : StreamRequest) (s : Session) : Prop where
  loaded : s.handler.backlogLoaded = true
  isOpen : s.handler.closed = false
  published : ∀ event ∈ s.log request, serializeAgentEvent event ∈ s.published
  delivered : ∃ start, s.subscribed = some start ∧ start + s.delivered = s.published.length

/-- A part of an ascending list that has all that is below its members. -/
theorem isPrefix_of_below {α : Type} (key : α → ℕ) {part whole : List α}
    (hpart : part.Pairwise fun a b => key a < key b)
    (hwhole : whole.Pairwise fun a b => key a < key b) (hsub : ∀ a ∈ part, a ∈ whole)
    (hbelow : ∀ a ∈ part, ∀ b ∈ whole, key b < key a → b ∈ part) : part <+: whole := by
  induction whole generalizing part with
  | nil =>
    obtain rfl : part = [] :=
      List.eq_nil_iff_forall_not_mem.mpr fun a ha => List.not_mem_nil (hsub a ha)
    exact List.nil_prefix
  | cons first whole ih =>
    cases part with
    | nil => exact List.nil_prefix
    | cons a part =>
      obtain ⟨hleast, hpart⟩ := List.pairwise_cons.mp hpart
      obtain ⟨hfirst, hrest⟩ := List.pairwise_cons.mp hwhole
      have hsame : a = first := by
        rcases List.mem_cons.mp (hsub a List.mem_cons_self) with heq | hmem
        · exact heq
        · have hlt := hfirst a hmem
          rcases List.mem_cons.mp
            (hbelow a List.mem_cons_self first List.mem_cons_self hlt) with heq | hin
          · exact heq.symm
          · exact absurd hlt (Nat.lt_asymm (hleast first hin))
      subst hsame
      refine List.prefix_cons_inj a |>.mpr (ih hpart hrest (fun b hb => ?_) fun b hb x hx hlt => ?_)
      · rcases List.mem_cons.mp (hsub b (List.mem_cons_of_mem _ hb)) with rfl | hin
        · exact absurd (hleast b hb) (Nat.lt_irrefl _)
        · exact hin
      · rcases List.mem_cons.mp (hbelow b (List.mem_cons_of_mem _ hb) x
          (List.mem_cons_of_mem _ hx) hlt) with rfl | hin
        · exact absurd (hfirst x hx) (Nat.lt_irrefl _)
        · exact hin

theorem mem_owed {message : SerializedAgentEvent} (hs : Sound request w s) :
    message ∈ s.owed request ↔
      Stored (s.log request) message ∧ request.start < message.sequence := by
  rw [Session.owed, List.mem_map]
  constructor
  · rintro ⟨event, hmem, rfl⟩
    obtain ⟨hmem, hafter⟩ := List.mem_filter.mp hmem
    exact ⟨⟨event, hmem, rfl⟩, (after_iff (hs.emitting.positive hmem)).mp hafter⟩
  · rintro ⟨⟨event, hmem, rfl⟩, hafter⟩
    exact ⟨event, List.mem_filter.mpr
      ⟨hmem, (after_iff (hs.emitting.positive hmem)).mpr hafter⟩, rfl⟩

theorem pairwise_owed (hs : Sound request w s) :
    (s.owed request).Pairwise fun a b => a.sequence < b.sequence :=
  List.pairwise_map.mpr ((hs.emitting.ascending request.runId).sublist List.filter_sublist)

/-- Nothing below an event that was written is left out. -/
theorem InOrder.isPrefix (hs : Sound request w s) (hi : InOrder request s) :
    s.handler.events <+: s.owed request := by
  refine isPrefix_of_below SerializedAgentEvent.sequence hs.ascends.increasing (pairwise_owed hs)
    (fun message hm => ?_) fun message hm other hother hlt => ?_
  · exact (mem_owed hs).mpr ⟨hs.written message hm, (hs.ascends.bounds message hm).1⟩
  · obtain ⟨⟨event, hevent, rfl⟩, hafter⟩ := (mem_owed hs).mp hother
    have hle := (hs.ascends.bounds message hm).2
    exact hi.complete event hevent hafter (Nat.le_trans (Nat.le_of_lt hlt) hle)

theorem InOrder.caughtUp (hs : Sound request w s) (hi : InOrder request s)
    (hup : s.CaughtUp request) : s.handler.events = s.owed request := by
  refine (hi.isPrefix hs).eq_of_length_le ?_
  have hnodup : (s.owed request).Nodup := (pairwise_owed hs).imp fun hlt heq => by
    rw [heq] at hlt
    exact Nat.lt_irrefl _ hlt
  refine (List.subperm_of_subset hnodup fun message hm => ?_).length_le
  obtain ⟨⟨event, hevent, rfl⟩, hafter⟩ := (mem_owed hs).mp hm
  obtain ⟨start, hstart, hall⟩ := hup.delivered
  refine hi.complete event hevent hafter
    (hi.loaded hup.loaded hup.isOpen start hstart (serializeAgentEvent event) ?_)
  rw [hall, List.take_length]
  exact hup.published event hevent

/-- In every run the numbers of what is written go up from the one that was asked for, and each
event is stored. Where events are published in the order of their numbers, what is written are the
first events of the log after that number, and all of them once the connection has caught up. -/
theorem stream_in_order {ok : Session → SessionLabel → Prop} (hw : ∀ r, Numbered w r)
    (h : Session.Reached request ok w s) :
    (s.handler.events.Pairwise fun a b => a.sequence < b.sequence) ∧
      (∀ message ∈ s.handler.events,
        request.start < message.sequence ∧ Stored (s.log request) message) ∧
      ((∀ s l, ok s l → PublishedInOrder request s l) →
        (∀ event ∈ w.log request.runId, event.userId = request.userId) →
        s.handler.events <+: s.owed request ∧
          (s.CaughtUp request → s.handler.events = s.owed request)) := by
  have hs := sound_reached hw h
  refine ⟨hs.ascends.increasing, fun message hm => ⟨(hs.ascends.bounds message hm).1,
    hs.written message hm⟩, fun hok husers => ?_⟩
  have hi := inOrder_reached hok hw husers h
  exact ⟨hi.isPrefix hs, hi.caughtUp hs⟩

section Sample

def sampleRequest : StreamRequest := ⟨1, 2, none⟩

private def firstInput : EmitAgentEventInput := ⟨1, 2, 3, .runStarted, "Agent run started", none⟩

private def secondInput : EmitAgentEventInput := ⟨1, 2, 3, .runCompleted, "Agent run completed", none⟩

/-- The first event is found and delivered as well, the second arrives live. -/
private def sampleRun : List SessionLabel :=
  [.emit (.spawn firstInput), .emit (.advance 0 .done), .emit (.advance 0 .done), .subscribe,
    .acknowledge, .query, .emit (.advance 0 .done), .deliver true, .load fun _ => true, .beat true,
    .emit (.spawn secondInput), .emit (.advance 1 .done), .emit (.advance 1 .done),
    .emit (.advance 1 .done), .deliver true]

def sampleSession : Session :=
  (Session.play sampleRequest (.initial sampleRequest .empty) sampleRun).getD
    (.initial sampleRequest .empty)

theorem sample_reached :
    Session.Reached sampleRequest (PublishedInOrder sampleRequest) .empty sampleSession :=
  reached_play sampleRun .start (by decide) rfl

theorem sample_stream_in_order : sampleSession.handler.events = sampleSession.owed sampleRequest ∧
    sampleSession.handler.events.length = 2 := by
  have hordered := (stream_in_order (w := .empty) (fun _ => rfl) sample_reached).2.2
    (fun _ _ h => h) (by rintro _ ⟨⟩)
  exact ⟨hordered.2 ⟨rfl, rfl, by decide, ⟨_, rfl, rfl⟩⟩, rfl⟩

-- Both events are stored before the first one is published: the second is written, and the first
-- is skipped when it arrives.
example : (Session.play sampleRequest (.initial sampleRequest .empty)
    [.subscribe, .acknowledge, .query, .load fun _ => true, .emit (.spawn firstInput),
      .emit (.advance 0 .done), .emit (.advance 0 .done), .emit (.spawn secondInput),
      .emit (.advance 1 .done), .emit (.advance 1 .done), .emit (.advance 1 .done), .deliver true,
      .emit (.advance 0 .done), .deliver true]).map
    (fun s => (s.handler.events.map SerializedAgentEvent.sequence,
      (s.log sampleRequest).map AgentEvent.sequence)) = some ([2], [1, 2]) := by
  decide

end Sample

end Order

end SseStream
end AppBuilder.Agent
