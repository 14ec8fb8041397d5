import AppBuilder.Web.StreamAgentEvents
import AppBuilder.Web.StreamReading

/-! What a client of the event stream is told, over all its connections. -/
namespace AppBuilder.Web
namespace AgentEventStream
open Encoding Agent.SseStream

variable {N σ ε : Type} {numbers : Numbers N} (counting : Counting numbers)

section Exchanges

variable {counting} {options : StreamOptions N σ ε} {listener : Listener N σ ε}
  {c : Consumer N σ ε} {x : Exchange N σ ε} {log told : List (PublicAgentEvent N)}
  {last : Option ℕ} {chunks : List (List ℕ)} {caller : σ} {calm : Prop}

/-- The events of a log after a number. -/
def eventsAfter (last : Option ℕ) (log : List (PublicAgentEvent N)) : List (PublicAgentEvent N) :=
  log.filter fun event => last.all (· < event.sequence)

/-- The bytes of a connection that is asked for the events after `last`: their frames, with
heartbeats anywhere between them, as far as they arrive. -/
def Serves (counting : Counting numbers) (log : List (PublicAgentEvent N)) (last : Option ℕ)
    (bytes : List ℕ) : Prop :=
  ∃ ws : List (Write (PublicAgentEvent N)), ws.filterMap Write.event? = eventsAfter last log ∧
    bytes <+: Utf8.encode (ws.flatMap (Write.frame counting.ofNat numbers.print))

def Cursor.at (counting : Counting numbers) (last : Option ℕ) : Cursor N :=
  ⟨last.map counting.ofNat, last.map counting.ofNat⟩

/-- What a connection has made of the events that it is asked for. -/
structure Receives (counting : Counting numbers) (calm : Prop) (last : Option ℕ)
    (x : Exchange N σ ε) (told : List (PublicAgentEvent N)) : Prop where
  events : x.events = told.map (received counting)
  early : ∀ event ∈ told.dropLast, ¬IsTerminal event
  result : ∀ result, x.outcome = .ok result →
    (result.terminal = true ↔ ∃ event ∈ told, IsTerminal event)
  retryable : x.outcome = .error .retryable → ∀ event ∈ told, ¬IsTerminal event
  advance : (x.outcome = .error .retryable ∨ ∃ result, x.outcome = .ok result) →
    (Cursor.at counting last).advance x = .at counting (position last told)
  protocol : ∀ message, x.outcome = .error (.stream (.protocol message)) →
    message = noBody ∨ message = otherType
  quiet : calm → ∀ failure, x.outcome = .error failure → failure = .retryable

theorem receives_failed {failure : Failure ε} (caller : σ)
    (h : ∀ message, failure = .stream (.protocol message) →
      message = noBody ∨ message = otherType)
    (hquiet : calm → failure = .retryable) :
    Receives counting calm last (Exchange.failed caller failure : Exchange N σ ε) [] where
  events := rfl
  early _ hmem := nomatch hmem
  result _ heq := nomatch heq
  retryable _ _ hmem := nomatch hmem
  advance _ := rfl
  protocol message heq := h message (Except.error.inj heq)
  quiet hcalm _ heq := (Except.error.inj heq) ▸ hquiet hcalm

theorem ready_start (counting : Counting numbers) (last : Option ℕ) (caller : σ) :
    Ready counting last (Consumer.start (last.map counting.ofNat) caller : Consumer N σ ε) :=
  ⟨rfl, rfl, rfl, rfl⟩

/-- The cursor stands at the last event that was reported. -/
theorem onProgress_told (last : Option ℕ) (told : List (PublicAgentEvent N)) :
    (Cursor.at counting last).onProgress (told.map fun event =>
      (counting.ofNat event.sequence, counting.ofNat event.sequence)) =
    .at counting (position last told) := by
  induction told generalizing last with
  | nil => rfl
  | cons event told ih =>
    rw [position_cons]
    exact ih (some event.sequence)

/-- The connection was read as far as it goes. -/
theorem Reading.receives (h : Reading counting calm last
    (Consumer.start (last.map counting.ofNat) caller) c told) :
    Receives counting calm last (Exchange.of c.finish) told where
  events := h.events
  early := h.early
  result result heq := by
    cases hthrown : c.thrown with
    | none =>
      rw [Exchange.of, Consumer.finish, hthrown] at heq
      cases heq
      exact h.terminal hthrown
    | some error =>
      rw [Exchange.of, Consumer.finish, hthrown] at heq
      cases heq
  retryable heq := by
    rw [Exchange.of, Consumer.finish] at heq
    cases hthrown : c.thrown <;> rw [hthrown] at heq <;> cases heq
  advance hout := by
    cases hthrown : c.thrown with
    | none =>
      have hprogress : c.progress = told.map fun event =>
        (counting.ofNat event.sequence, counting.ofNat event.sequence) := h.progress hthrown
      rw [Cursor.advance, Exchange.of, Consumer.finish, hthrown]
      dsimp only [Except.mapError]
      rw [hprogress, onProgress_told, h.acceptedId hthrown, h.acceptedSequence hthrown, Cursor.at,
        position]
      cases told.getLast? with
      | none => rfl
      | some event => rfl
    | some error =>
      rw [Exchange.of, Consumer.finish, hthrown] at hout
      rcases hout with hout | ⟨result, hout⟩ <;> cases hout
  protocol message heq := by
    rw [Exchange.of, Consumer.finish] at heq
    cases hthrown : c.thrown with
    | none =>
      rw [hthrown] at heq
      cases heq
    | some error =>
      rw [hthrown] at heq
      cases heq
      exact absurd hthrown (h.thrown message)
  quiet hcalm failure heq := by
    rw [Exchange.of, Consumer.finish, h.quiet hcalm] at heq
    cases heq

/-- Reading the connection failed, before the client was done. -/
theorem Reading.interrupted {failure : Failure ε} (h : Reading counting calm last
      (Consumer.start (last.map counting.ofNat) caller) c told)
    (hhalted : c.halted = false) (hfailure : ∀ message, failure ≠ .stream (.protocol message))
    (hquiet : calm → failure = .retryable) :
    Receives counting calm last { Exchange.of c.finish with outcome := .error failure } told := by
  rw [Consumer.halted, Bool.or_eq_false_iff] at hhalted
  have hthrown : c.thrown = none := by simpa using hhalted.2
  have hnone : ∀ event ∈ told, ¬IsTerminal event := by
    intro event hmem hterminal
    have htrue := (h.terminal hthrown).mpr ⟨event, hmem, hterminal⟩
    rw [hhalted.1] at htrue
    cases htrue
  refine ⟨h.events, h.early, ?_, fun _ => hnone, fun _ => ?_, ?_,
    fun hcalm failure heq => Except.error.inj heq ▸ hquiet hcalm⟩
  · intro result heq
    cases heq
  · have hprogress : c.progress = told.map fun event =>
        (counting.ofNat event.sequence, counting.ofNat event.sequence) := h.progress hthrown
    rw [Cursor.advance, Exchange.of, Consumer.finish]
    dsimp only
    rw [hprogress, onProgress_told]
  · intro message heq
    exact absurd (Except.error.inj heq) (hfailure message)

/-- The log as it is stored: numbered upwards, with events that the client accepts. -/
structure Log (counting : Counting numbers) (log : List (PublicAgentEvent N)) : Prop where
  increasing : log.Pairwise fun a b => a.sequence < b.sequence
  publishable : ∀ event ∈ log, Publishable counting event

theorem isLine_type (h : Publishable counting event) : IsLine event.type := by
  have htypes : (publicAgentEventTypes.all fun type => type.all fun c => !isNewline c) = true := rfl
  exact isLine_of_all (List.all_eq_true.mp htypes event.type h.type)

/-- A connection that is cut anywhere: the client is told some of the first events. -/
theorem consumeBody_receives (hlog : Log counting log)
    (hserves : Serves counting log last chunks.flatten) {ending : Ending}
    (hcalm : calm → listener.Quiet ∧ ending ≠ .aborted) :
    ∃ told, told <+: eventsAfter last log ∧ Receives counting calm last
      (consumeBody numbers listener (last.map counting.ofNat) caller chunks ending) told := by
  obtain ⟨ws, hws, hbytes⟩ := hserves
  have hafter : ∀ event ∈ eventsAfter last log, ∀ n ∈ last, n < event.sequence := by
    intro event hmem n hn
    have hall := (List.mem_filter.mp hmem).2
    rw [hn] at hall
    exact of_decide_eq_true hall
  have hpub : ∀ event ∈ eventsAfter last log, Publishable counting event :=
    fun event hmem => hlog.publishable event (List.mem_of_mem_filter hmem)
  have hsorted := hlog.increasing.sublist
    (List.filter_sublist (p := fun event => last.all (· < event.sequence)))
  have hlines : ∀ line ∈ ws.flatMap (Write.lines counting.ofNat numbers.print), IsLine line := by
    intro line hline
    obtain ⟨w, hw, hline⟩ := List.mem_flatMap.mp hline
    refine isLine_lines (Json.isLine_print numbers.toNumberText) (fun event he => ?_) line hline
    exact isLine_type (hpub event (hws ▸ List.mem_filterMap.mpr ⟨w, hw, he⟩))
  have hmark := @head_frames N counting.ofNat numbers.print ws
  rw [← unlines_writes] at hbytes hmark
  have hstart := @ready_start N σ ε numbers counting last caller
  have hread : ∀ read, read <+: ws.flatMap (Write.lines counting.ofNat numbers.print) →
      ∃ told, told <+: eventsAfter last log ∧
        Reading counting calm last (Consumer.start (last.map counting.ofNat) caller)
          (feed (readLine numbers listener) Consumer.halted
            (Consumer.start (last.map counting.ofNat) caller) read) told := by
    intro read hread
    have h := @reading_writes N σ ε numbers counting listener _ last calm ws read hstart
      fun hquiet => (hcalm hquiet).1
    rw [hws] at h
    exact h hpub hafter hsorted hread
  cases haborted : listener.aborted caller with
  | true =>
    have hnone : consumeBody numbers listener (last.map counting.ofNat) caller chunks ending =
        .failed caller (.stream .abort) := by
      cases ending <;>
        simp only [consumeBody, consumeResponse, consumeArrived, haborted, if_true] <;> rfl
    refine ⟨[], List.nil_prefix, ?_⟩
    rw [hnone]
    refine receives_failed caller (by rintro _ ⟨⟩) fun hquiet => ?_
    rw [(hcalm hquiet).1.aborted] at haborted
    cases haborted
  | false =>
    have harrived : ∀ failure : Failure ε, (∀ message, failure ≠ .stream (.protocol message)) →
        (calm → failure = .retryable) → ∃ told, told <+: eventsAfter last log ∧
          Receives counting calm last (consumeArrived numbers listener (last.map counting.ofNat)
            caller chunks failure) told := by
      intro failure hfailure hquiet
      obtain ⟨read, hprefix, heq⟩ := readArrived_cut (readLine numbers listener) Consumer.halted
        hlines hmark hbytes hstart.not_halted
      obtain ⟨told, htold, hreading⟩ := hread read hprefix
      refine ⟨told, htold, ?_⟩
      rw [consumeArrived, haborted, if_neg Bool.false_ne_true, heq]
      dsimp only
      split
      · exact hreading.receives
      · next hhalted =>
        exact hreading.interrupted (Bool.not_eq_true _ ▸ hhalted) hfailure hquiet
    cases ending with
    | closed =>
      obtain ⟨read, hprefix, heq⟩ := readChunks_cut (readLine numbers listener) Consumer.halted
        hlines hmark hbytes hstart.not_halted
      obtain ⟨told, htold, hreading⟩ := hread read hprefix
      refine ⟨told, htold, ?_⟩
      rw [consumeBody, consumeResponse, haborted, if_neg Bool.false_ne_true, heq]
      exact hreading.receives
    | failed => exact harrived .retryable (by rintro _ ⟨⟩) fun _ => rfl
    | aborted =>
      exact harrived (.stream .abort) (by rintro _ ⟨⟩) fun hquiet => absurd rfl (hcalm hquiet).2

end Exchanges

section Loop

variable {counting} {options : StreamOptions N σ ε} {fetchImpl : ℕ → Option N → Round}
  {log told more : List (PublicAgentEvent N)} {last : Option ℕ} {x : Exchange N σ ε}

/-- Each response that is accepted serves the log after the number that was sent. -/
def ServesLog (ε : Type) (counting : Counting numbers) (log : List (PublicAgentEvent N))
    (fetchImpl : ℕ → Option N → Round) : Prop :=
  ∀ requests (last : Option ℕ), (∀ n ∈ last, n ≤ counting.bound) → ∀ response chunks ending,
    (fetchImpl requests (last.map counting.ofNat)).reply = .response response →
    response.accept = (.ok (chunks, ending) : Except (Failure ε) _) →
    Serves counting log last chunks.flatten

/-- Nothing but the connection disturbs a round: the signal is not aborted, and the server does not
refuse the request. -/
structure Round.Undisturbed (ε : Type) (round : Round) : Prop where
  reply : round.reply ≠ .aborted
  accepted : ∀ response, round.reply = .response response → ∀ failure : Failure ε,
    response.accept = .error failure → failure = .retryable
  ending : ∀ response chunks ending, round.reply = .response response →
    response.accept = (.ok (chunks, ending) : Except (Failure ε) _) → ending ≠ .aborted
  asleep : round.abortedAsleep = false

structure StreamOptions.Quiet (options : StreamOptions N σ ε) : Prop where
  listener : options.listener.Quiet
  onState : ∀ s state, (options.onState s state).2 = none

theorem accept_protocol {response : Response} {message : String}
    (h : response.accept = (.error (.stream (.protocol message)) :
      Except (Failure ε) (List (List ℕ) × Ending))) : message = noBody ∨ message = otherType := by
  unfold Response.accept at h
  split at h
  · split_ifs at h <;> cases h
  · split at h
    · cases h
      exact .inl rfl
    · split_ifs at h
      cases h
      exact .inr rfl

theorem connect_receives {round : Round} (hlog : Log counting log)
    (hserves : ∀ response chunks ending, round.reply = .response response →
      response.accept = (.ok (chunks, ending) : Except (Failure ε) _) →
      Serves counting log last chunks.flatten) (caller : σ) :
    ∃ told, told <+: eventsAfter last log ∧
      Receives counting (options.Quiet ∧ round.Undisturbed ε) last
        (connect numbers options (.at counting last) caller round.reply) told := by
  cases hreply : round.reply with
  | rejected =>
    exact ⟨[], List.nil_prefix, receives_failed caller (by rintro _ ⟨⟩) fun _ => rfl⟩
  | aborted =>
    exact ⟨[], List.nil_prefix, receives_failed caller (by rintro _ ⟨⟩)
      fun hcalm => absurd hreply hcalm.2.reply⟩
  | response response =>
    rw [connect]
    cases haccept : (response.accept : Except (Failure ε) (List (List ℕ) × Ending)) with
    | error failure =>
      exact ⟨[], List.nil_prefix, receives_failed caller
        (fun message heq => accept_protocol (heq ▸ haccept))
        fun hcalm => hcalm.2.accepted response hreply failure haccept⟩
    | ok body =>
      obtain ⟨chunks, ending⟩ := body
      cases hstate : options.onState caller .connected with
      | mk caller' failed =>
        cases failed with
        | some error =>
          refine ⟨[], List.nil_prefix, ?_⟩
          dsimp only
          refine receives_failed caller' (by rintro _ ⟨⟩) fun hcalm => ?_
          have hnone := hcalm.1.onState caller .connected
          rw [hstate] at hnone
          cases hnone
        | none =>
          dsimp only
          exact consumeBody_receives hlog (hserves response chunks ending hreply haccept)
            fun hcalm => ⟨hcalm.1.listener, hcalm.2.ending response chunks ending hreply haccept⟩

theorem eventsAfter_position (hlog : Log counting log) (h : told <+: eventsAfter last log) :
    told ++ eventsAfter (position last told) log = eventsAfter last log := by
  obtain ⟨rest, hrest⟩ := h
  rcases List.eq_nil_or_concat told with rfl | ⟨first, event, rfl⟩
  · rfl
  · have hsorted : (first ++ [event] ++ rest).Pairwise fun a b => a.sequence < b.sequence := by
      have hsub := hlog.increasing.sublist
        (List.filter_sublist (p := fun event => last.all (· < event.sequence)))
      rw [List.concat_eq_append] at hrest
      exact hrest ▸ hsub
    have hposition : position last (first.concat event) = some event.sequence := by
      rw [position, List.concat_eq_append, List.getLast?_concat]
      rfl
    have hafter : eventsAfter (some event.sequence) log = (eventsAfter last log).filter
        fun e => decide (event.sequence < e.sequence) := by
      rw [eventsAfter, eventsAfter, List.filter_filter]
      refine List.filter_congr fun e he => ?_
      have hmem : event ∈ eventsAfter last log := by
        rw [← hrest]
        simp
      have hlast := (List.mem_filter.mp hmem).2
      cases last with
      | none => simp
      | some n =>
        have hlt : n < event.sequence := by simpa using hlast
        simp only [Option.all_some]
        by_cases he : event.sequence < e.sequence
        · simp [he, hlt.trans he]
        · simp [he]
    rw [List.concat_eq_append] at hrest hposition ⊢
    rw [hposition, hafter, ← hrest, List.filter_append]
    have hbefore : (first ++ [event]).filter (fun e => decide (event.sequence < e.sequence)) =
        [] := by
      rw [List.filter_eq_nil_iff]
      intro e he hlt
      have hlt := of_decide_eq_true hlt
      rcases List.mem_append.mp he with he | he
      · have horder := (List.pairwise_append.mp (List.pairwise_append.mp hsorted).1).2.2 e he event
          (List.mem_singleton_self _)
        omega
      · cases List.mem_singleton.mp he
        omega
    have hbehind : rest.filter (fun e => decide (event.sequence < e.sequence)) = rest := by
      rw [List.filter_eq_self]
      exact fun e he => decide_eq_true
        ((List.pairwise_append.mp hsorted).2.2 event (by simp) e he)
    rw [hbefore, hbehind, List.nil_append]

/-- What a stream comes to that has told the client `told`. -/
def Concludes (counting : Counting numbers) (last : Option ℕ)
    (told : List (PublicAgentEvent N)) : StreamOutcome N ε → Prop
  | .terminal id => ∃ event, told.getLast? = some event ∧ IsTerminal event ∧
      id = some (counting.ofNat event.sequence)
  | .exhausted id => (∀ event ∈ told, ¬IsTerminal event) ∧
      id = (position last told).map counting.ofNat
  | .thrown (.protocol message) => message = noBody ∨ message = otherType
  | .thrown _ => True

structure Delivers (counting : Counting numbers) (calm : Prop) (last : Option ℕ)
    (log : List (PublicAgentEvent N)) (s : Streaming N ε) (told : List (PublicAgentEvent N)) :
    Prop where
  isPrefix : told <+: eventsAfter last log
  events : s.events = told.map (received counting)
  early : ∀ event ∈ told.dropLast, ¬IsTerminal event
  outcome : Concludes counting last told s.outcome
  quiet : calm → ∀ error, s.outcome ≠ .thrown error

theorem exists_last {P : PublicAgentEvent N → Prop} (h : ∃ event ∈ told, P event)
    (hearly : ∀ event ∈ told.dropLast, ¬P event) :
    ∃ event, told.getLast? = some event ∧ P event := by
  obtain ⟨event, hmem, hevent⟩ := h
  rcases List.eq_nil_or_concat told with rfl | ⟨first, final, rfl⟩
  · cases hmem
  · rw [List.concat_eq_append] at hmem hearly ⊢
    rw [List.dropLast_concat] at hearly
    refine ⟨final, List.getLast?_concat, ?_⟩
    rcases List.mem_append.mp hmem with hmem | hmem
    · exact absurd hevent (hearly event hmem)
    · exact List.mem_singleton.mp hmem ▸ hevent

/-- The end of the loop after a connection. -/
theorem settle_concludes {calm : Prop} {outcome : StreamOutcome N ε}
    (h : Receives counting calm last x told) (hcalm : calm → options.listener.Quiet)
    (hsettle : settle options.listener ((Cursor.at counting last).advance x) x = some outcome) :
    Concludes counting last told outcome ∧ (calm → ∀ error, outcome ≠ .thrown error) := by
  unfold settle at hsettle
  split at hsettle
  · next haborted =>
    cases hsettle
    refine ⟨trivial, fun hquiet => ?_⟩
    rw [(hcalm hquiet).aborted] at haborted
    cases haborted
  · cases hout : x.outcome with
    | ok result =>
      rw [hout] at hsettle
      dsimp only at hsettle
      split_ifs at hsettle with hterminal
      cases hsettle
      obtain ⟨event, hlast, hevent⟩ := exists_last ((h.result result hout).mp hterminal) h.early
      refine ⟨⟨event, hlast, hevent, ?_⟩, fun _ _ => by rintro ⟨⟩⟩
      rw [h.advance (.inr ⟨result, hout⟩), Cursor.at, position, hlast]
      rfl
    | error failure =>
      have hquiet := fun hcalm => h.quiet hcalm failure hout
      rw [hout] at hsettle
      cases failure with
      | retryable => cases hsettle
      | http status statusText =>
        cases hsettle
        exact ⟨trivial, fun hcalm => by cases hquiet hcalm⟩
      | stream error =>
        refine ⟨?_, fun hcalm => by cases hquiet hcalm⟩
        cases error with
        | abort =>
          cases hsettle
          trivial
        | application error =>
          cases hsettle
          trivial
        | protocol message =>
          cases hsettle
          exact h.protocol message hout

/-- The loop goes on after events none of which is terminal. -/
theorem settle_none {calm : Prop} (h : Receives counting calm last x told)
    (hsettle : settle options.listener ((Cursor.at counting last).advance x) x = none) :
    (∀ event ∈ told, ¬IsTerminal event) ∧
      (Cursor.at counting last).advance x = .at counting (position last told) := by
  unfold settle at hsettle
  split at hsettle
  · cases hsettle
  · cases hout : x.outcome with
    | ok result =>
      rw [hout] at hsettle
      dsimp only at hsettle
      split_ifs at hsettle with hterminal
      exact ⟨fun event hmem hevent =>
        hterminal ((h.result result hout).mpr ⟨event, hmem, hevent⟩),
        h.advance (.inr ⟨result, hout⟩)⟩
    | error failure =>
      rw [hout] at hsettle
      cases failure with
      | retryable => exact ⟨h.retryable hout, h.advance (.inl hout)⟩
      | http status statusText => cases hsettle
      | stream error => cases error <;> cases hsettle

theorem Concludes.append {outcome : StreamOutcome N ε} (hnone : ∀ event ∈ told, ¬IsTerminal event)
    (h : Concludes counting (position last told) more outcome) :
    Concludes counting last (told ++ more) outcome := by
  cases outcome with
  | terminal id =>
    obtain ⟨event, hlast, hevent, hid⟩ := h
    refine ⟨event, ?_, hevent, hid⟩
    rw [List.getLast?_append, hlast]
    rfl
  | exhausted id =>
    obtain ⟨hmore, hid⟩ := h
    refine ⟨fun event hmem => ?_, ?_⟩
    · rcases List.mem_append.mp hmem with hmem | hmem
      · exact hnone event hmem
      · exact hmore event hmem
    · rw [position_append]
      exact hid
  | thrown error => cases error <;> exact h

theorem early_append (hnone : ∀ event ∈ told, ¬IsTerminal event)
    (h : ∀ event ∈ more.dropLast, ¬IsTerminal event) :
    ∀ event ∈ (told ++ more).dropLast, ¬IsTerminal event := by
  intro event hmem
  by_cases hmore : more = []
  · subst hmore
    rw [List.append_nil] at hmem
    exact hnone event (List.dropLast_subset _ hmem)
  · rw [List.dropLast_append_of_ne_nil hmore] at hmem
    rcases List.mem_append.mp hmem with hmem | hmem
    · exact hnone event hmem
    · exact h event hmem

/-- Nothing but the connections disturbs the stream. -/
def Calm (options : StreamOptions N σ ε) (fetchImpl : ℕ → Option N → Round) : Prop :=
  options.Quiet ∧ ∀ requests last, (fetchImpl requests last).Undisturbed ε

theorem streamLoop_delivers (hlog : Log counting log)
    (hserves : ServesLog ε counting log fetchImpl) (remaining requests : ℕ) (caller : σ)
    (hlast : ∀ n ∈ last, n ≤ counting.bound) :
    ∃ told, Delivers counting (Calm options fetchImpl) last log
      (streamLoop numbers options fetchImpl remaining requests (.at counting last) caller) told := by
  induction remaining using Nat.strong_induction_on generalizing requests last caller with
  | _ remaining ih =>
    unfold streamLoop
    split
    · next haborted =>
      refine ⟨[], List.nil_prefix, rfl, fun _ hmem => (nomatch hmem), trivial, fun hcalm => ?_⟩
      rw [hcalm.1.listener.aborted] at haborted
      cases haborted
    · obtain ⟨told, hprefix, hx⟩ := @connect_receives N σ ε numbers counting options log last
        (fetchImpl requests (last.map counting.ofNat)) hlog (hserves requests last hlast) caller
      have hlistener : options.Quiet ∧ (fetchImpl requests (last.map counting.ofNat)).Undisturbed ε →
          options.listener.Quiet := fun hcalm => hcalm.1.listener
      dsimp only
      generalize hround : fetchImpl requests (last.map counting.ofNat) = round at hx hlistener
      have hcursor : fetchImpl requests (Cursor.at counting last).lastEventId = round := hround
      rw [hcursor]
      generalize connect numbers options (.at counting last) caller round.reply = x at hx
      have hcalm : Calm options fetchImpl → options.Quiet ∧ round.Undisturbed ε := fun hcalm =>
        ⟨hcalm.1, hround ▸ hcalm.2 requests _⟩
      cases hsettle : settle options.listener ((Cursor.at counting last).advance x) x with
      | some outcome =>
        obtain ⟨hconcludes, hquiet⟩ := settle_concludes hx hlistener hsettle
        exact ⟨told, hprefix, hx.events, hx.early, hconcludes, fun h => hquiet (hcalm h)⟩
      | none =>
        obtain ⟨hnone, hadvance⟩ := settle_none hx hsettle
        rw [hadvance]
        have hthrown : ∀ error, ¬Calm options fetchImpl →
            (∀ message, error ≠ Thrown.protocol message) →
            ∃ told, Delivers counting (Calm options fetchImpl) last log
              (⟨x.events, .thrown error⟩ : Streaming N ε) told := by
          intro error hnot hprotocol
          refine ⟨told, hprefix, hx.events, hx.early, ?_, fun h => absurd h hnot⟩
          cases error with
          | protocol message => exact absurd rfl (hprotocol message)
          | abort | original | http => trivial
        cases remaining with
        | zero =>
          exact ⟨told, hprefix, hx.events, hx.early, ⟨hnone, rfl⟩, fun _ _ => by rintro ⟨⟩⟩
        | succ remaining =>
          cases hstate : options.onState x.caller .retrying with
          | mk caller' failed =>
            cases failed with
            | some error =>
              refine hthrown _ (fun h => ?_) (by rintro _ ⟨⟩)
              have hfine := h.1.onState x.caller .retrying
              rw [hstate] at hfine
              cases hfine
            | none =>
              dsimp only
              split
              · next haborted =>
                refine hthrown _ (fun h => ?_) (by rintro _ ⟨⟩)
                rw [h.1.listener.aborted, (hcalm h).2.asleep] at haborted
                cases haborted
              · have hbound : ∀ n ∈ position last told, n ≤ counting.bound := by
                  intro n hn
                  rw [position] at hn
                  cases hlast' : told.getLast? with
                  | none =>
                    rw [hlast'] at hn
                    exact hlast n hn
                  | some event =>
                    rw [hlast'] at hn
                    cases hn
                    have hmem := hprefix.subset (List.mem_of_getLast? hlast')
                    exact (hlog.publishable event (List.mem_of_mem_filter hmem)).sequence
                obtain ⟨more, hmore⟩ := ih remaining (Nat.lt_succ_self _) (requests + 1) caller'
                  hbound
                refine ⟨told ++ more, ?_, ?_, early_append hnone hmore.early,
                  hmore.outcome.append hnone, hmore.quiet⟩
                · rw [← eventsAfter_position hlog hprefix]
                  exact (List.prefix_append_right_inj told).mpr hmore.isPrefix
                · rw [List.map_append, ← hx.events, ← hmore.events]

/-- Undisturbed, the stream ends as terminal where it has told a terminal event. -/
theorem Delivers.terminal_iff {calm : Prop} {s : Streaming N ε}
    (h : Delivers counting calm last log s told) (hcalm : calm) :
    (∃ id, s.outcome = .terminal id) ↔ ∃ event ∈ told, IsTerminal event := by
  have hout := h.outcome
  have hquiet := h.quiet hcalm
  generalize s.outcome = outcome at hout hquiet ⊢
  cases outcome with
  | terminal id =>
    obtain ⟨event, hmem, hevent, -⟩ := hout
    exact iff_of_true ⟨id, rfl⟩ ⟨event, List.mem_of_getLast? hmem, hevent⟩
  | exhausted id =>
    refine iff_of_false (by rintro ⟨_, ⟨⟩⟩) ?_
    rintro ⟨event, hmem, hevent⟩
    exact hout.1 event hmem hevent
  | thrown error => exact absurd rfl (hquiet error)

theorem streamAgentEvents_told (hlog : Log counting log)
    (hserves : ServesLog ε counting log fetchImpl)
    (hstart : options.lastEventId = last.map counting.ofNat)
    (hlast : ∀ n ∈ last, n ≤ counting.bound) (caller : σ) :
    ∃ told, Delivers counting (Calm options fetchImpl) last log
      (streamAgentEvents numbers options fetchImpl caller) told := by
  have hcursor : (⟨options.lastEventId, options.lastEventId⟩ : Cursor N) = .at counting last := by
    rw [hstart, Cursor.at]
  rw [streamAgentEvents, hcursor]
  exact @streamLoop_delivers N σ ε numbers counting options fetchImpl log last hlog hserves
    (normalizeReconnectAttempts options.maxReconnectAttempts) 0 caller hlast

/-- The events that a client is told are the first ones of the log after the number that it started
with: each once, in order and none left out, however often and wherever the connections are cut. The
stream ends as terminal when it has told a terminal event, and then at once; otherwise it gives up
with the number of the last event. -/
theorem streamAgentEvents_delivers (hlog : Log counting log)
    (hserves : ServesLog ε counting log fetchImpl)
    (hstart : options.lastEventId = last.map counting.ofNat)
    (hlast : ∀ n ∈ last, n ≤ counting.bound) (caller : σ) :
    ∃ told, told <+: eventsAfter last log ∧
      (streamAgentEvents numbers options fetchImpl caller).events = told.map (received counting) ∧
      (told.Pairwise fun a b => a.sequence < b.sequence) ∧
      (∀ event ∈ told.dropLast, ¬IsTerminal event) ∧
      Concludes counting last told (streamAgentEvents numbers options fetchImpl caller).outcome ∧
      (Calm options fetchImpl →
        ((∃ id, (streamAgentEvents numbers options fetchImpl caller).outcome = .terminal id) ↔
          ∃ event ∈ told, IsTerminal event)) := by
  obtain ⟨told, htold⟩ := streamAgentEvents_told hlog hserves hstart hlast caller
  have hincreasing := hlog.increasing.sublist
    (List.filter_sublist (p := fun event => last.all (· < event.sequence)))
  exact ⟨told, htold.isPrefix, htold.events, hincreasing.sublist htold.isPrefix.sublist, htold.early,
    htold.outcome, htold.terminal_iff⟩

end Loop

section Sample

def rationalNumbers : Numbers ℚ where
  toNumberText := Json.rationals
  isFinite _ := true
  isInteger q := q.den == 1
  isNegative q := q < 0
  atMost a b := a ≤ b
  equal a b := a = b
  ofDigits digits := (Nat.ofDigitChars 10 digits 0 : ℕ)

/-- `Number.MAX_SAFE_INTEGER` is the bound. -/
def rationalCounting : Counting rationalNumbers where
  ofNat n := n
  bound := 2 ^ 53 - 1
  print n _ := by
    change Json.integerText (n : ℚ).num ++ (if (n : ℚ).den = 1 then [] else _) = _
    rw [Rat.den_natCast, if_pos rfl, List.append_nil, Rat.num_natCast]
    rfl
  ofDigits n _ := congrArg Nat.cast (Nat.ofDigitChars_ten_toDigits)
  isFinite _ _ := rfl
  isInteger n _ := by
    change ((n : ℚ).den == 1) = true
    rw [Rat.den_natCast]
    rfl
  isNegative n _ := decide_eq_false (not_lt.mpr (Nat.cast_nonneg n))
  atMost m _ n _ := decide_eq_decide.mpr Nat.cast_le
  equal n _ := decide_eq_true rfl

def sampleEvent (sequence : ℕ) (type : String) (payload : Json ℚ) : PublicAgentEvent ℚ where
  id := text "6650"
  runId := text "665f"
  sequence := sequence
  type := text type
  message := text "Two\nlines"
  payload := payload
  createdAt := text "2026-07-26T00:00:00.000Z"

def sampleLog : List (PublicAgentEvent ℚ) :=
  [sampleEvent 1 "run.created" .undefined, sampleEvent 2 "agent.step" (.object []),
    sampleEvent 3 "run.completed" .undefined]

/-- Each connection ends after some more bytes than the one before, wherever that is. -/
def sampleFetch (requests : ℕ) (last : Option ℚ) : Round where
  reply := .response ⟨200, text "OK", some (text "text/event-stream"), some
    ([(Utf8.encode ((sampleLog.filter fun event => last.all (· < (event.sequence : ℚ))).flatMap
      fun event => Write.frame rationalCounting.ofNat rationalNumbers.print
        (.publicEvent event))).take (150 * (requests + 1))], .closed)⟩
  abortedAsleep := false

def sampleOptions : StreamOptions ℚ Unit Unit where
  listener := ⟨fun s _ => (s, none), fun _ => false, fun _ => false⟩
  onState s _ := (s, none)
  lastEventId := none
  maxReconnectAttempts := none

theorem sampleLog_log : Log rationalCounting sampleLog := by
  refine ⟨by simp [sampleLog, sampleEvent], fun event hmem => ?_⟩
  simp only [sampleLog, List.mem_cons, List.not_mem_nil, or_false] at hmem
  rcases hmem with rfl | rfl | rfl
  · exact ⟨by decide, by decide, .inl rfl⟩
  · exact ⟨by decide, by decide, .inr ⟨[], rfl, ⟨⟨List.nodup_nil, List.Pairwise.nil⟩, trivial⟩⟩⟩
  · exact ⟨by decide, by decide, .inl rfl⟩

theorem sampleFetch_serves : ServesLog Unit rationalCounting sampleLog sampleFetch := by
  intro requests last _ response chunks ending hreply haccept
  cases hreply
  cases haccept
  refine ⟨(eventsAfter last sampleLog).map .publicEvent, ?_, ?_⟩
  · rw [List.filterMap_map]
    exact List.filterMap_some
  · rw [List.flatten_singleton, List.flatMap_map]
    have hafter : sampleLog.filter (fun event =>
        (last.map rationalCounting.ofNat).all (· < (event.sequence : ℚ))) =
        eventsAfter last sampleLog := by
      refine List.filter_congr fun event _ => ?_
      cases last with
      | none => rfl
      | some n => exact decide_eq_decide.mpr Nat.cast_lt
    rw [hafter]
    exact List.take_prefix _ _

theorem sample_stream_delivers : ∃ told, told <+: sampleLog ∧
    (streamAgentEvents rationalNumbers sampleOptions sampleFetch ()).events =
      told.map (received rationalCounting) ∧
    Concludes rationalCounting none told
      (streamAgentEvents rationalNumbers sampleOptions sampleFetch ()).outcome := by
  have hall : eventsAfter none sampleLog = sampleLog := List.filter_eq_self.mpr fun _ _ => rfl
  obtain ⟨told, hprefix, hevents, -, -, hout, -⟩ :=
    @streamAgentEvents_delivers ℚ Unit Unit rationalNumbers rationalCounting sampleOptions
      sampleFetch sampleLog none sampleLog_log sampleFetch_serves rfl (by rintro _ ⟨⟩) ()
  exact ⟨told, hall ▸ hprefix, hevents, hout⟩

end Sample

end AgentEventStream
end AppBuilder.Web
