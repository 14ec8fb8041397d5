import AppBuilder.Agent.SseStream
import AppBuilder.Web.AgentEventStream

/-! What the client makes of the frames of one connection, whichever way it is cut. -/
namespace AppBuilder.Web
namespace AgentEventStream
open Encoding Agent.SseStream

variable {N σ ε : Type} {numbers : Numbers N}

/-- The numbers that count events: natural numbers up to a bound, written in decimal digits. -/
structure Counting (numbers : Numbers N) where
  ofNat : ℕ → N
  bound : ℕ
  print : ∀ n ≤ bound, numbers.print (ofNat n) = Nat.toDigits 10 n
  ofDigits : ∀ n ≤ bound, numbers.ofDigits (Nat.toDigits 10 n) = ofNat n
  isFinite : ∀ n ≤ bound, numbers.isFinite (ofNat n) = true
  isInteger : ∀ n ≤ bound, numbers.isInteger (ofNat n) = true
  isNegative : ∀ n ≤ bound, numbers.isNegative (ofNat n) = false
  atMost : ∀ m ≤ bound, ∀ n ≤ bound, numbers.atMost (ofNat m) (ofNat n) = decide (m ≤ n)
  equal : ∀ n ≤ bound, numbers.equal (ofNat n) (ofNat n) = true

variable (counting : Counting numbers)

/-- An event as the server stores it: a number that counts, a type of the protocol, and an object
or nothing as its payload. -/
structure Publishable (event : PublicAgentEvent N) : Prop where
  sequence : event.sequence ≤ counting.bound
  type : event.type ∈ publicAgentEventTypes
  payload : event.payload = .undefined ∨
    ∃ members, event.payload = .object members ∧ Json.IsJson event.payload

def payloadOf : Json N → Option (List (Text × Json N))
  | .object members => some members
  | _ => none

/-- The event as the client hands it on. -/
def received (event : PublicAgentEvent N) : AgentEvent N :=
  ⟨counting.ofNat event.sequence, event.type, event.message, payloadOf event.payload⟩

def IsTerminal (event : PublicAgentEvent N) : Prop := event.type ∈ terminalEventTypes

instance (event : PublicAgentEvent N) : Decidable (IsTerminal event) :=
  inferInstanceAs (Decidable (event.type ∈ terminalEventTypes))

section Parse

variable {counting} {event : PublicAgentEvent N}

def eventKeys : List Text :=
  ["id", "runId", "sequence", "type", "message", "payload", "createdAt"].map text

/-- The properties of an event that its text has. -/
def writtenMembers (event : PublicAgentEvent N) : List (Text × Json N) :=
  [(text "id", .string event.id), (text "runId", .string event.runId),
    (text "sequence", .number (counting.ofNat event.sequence)), (text "type", .string event.type),
    (text "message", .string event.message)] ++
  (match event.payload with
    | .object members => [(text "payload", .object members)]
    | _ => []) ++
  [(text "createdAt", .string event.createdAt)]

theorem readPayload_written (h : Publishable counting event) :
    readPayload (property (@writtenMembers N numbers counting event) "payload") =
      some (payloadOf event.payload) := by
  rcases h.payload with hp | ⟨members, hp, -⟩
  · rw [writtenMembers, hp]
    rfl
  · rw [writtenMembers, hp]
    rfl

theorem readFields_written (h : Publishable counting event) :
    readFields numbers (@writtenMembers N numbers counting event) =
      some (received counting event) := by
  have hsequence : property (@writtenMembers N numbers counting event) "sequence" =
      .number (counting.ofNat event.sequence) := rfl
  have htype : property (@writtenMembers N numbers counting event) "type" = .string event.type :=
    rfl
  have hmessage : property (@writtenMembers N numbers counting event) "message" =
      .string event.message := rfl
  have hpublic : publicAgentEventTypes.contains event.type = true :=
    List.contains_iff_mem.mpr h.type
  rw [readFields, hsequence, htype, hmessage, readPayload_written h]
  dsimp only
  rw [counting.isFinite _ h.sequence, counting.isInteger _ h.sequence,
    counting.isNegative _ h.sequence, hpublic]
  rfl

theorem parse_json (h : Publishable counting event) :
    Json.parse numbers.toNumberText (event.json counting.ofNat numbers.print) =
      some (.object (@writtenMembers N numbers counting event)) := by
  have hvalid : Json.IsJson (.object (@writtenMembers N numbers counting event)) := by
    rw [writtenMembers]
    rcases h.payload with hp | ⟨members, hp, hjson⟩
    · have hkeys : (["id", "runId", "sequence", "type", "message", "createdAt"].map text).Sublist
          eventKeys := by decide
      rw [hp]
      exact ⟨inOrder_of_sublist eventKeys hkeys (by decide) (by decide), trivial, trivial,
        trivial, trivial, trivial, trivial, trivial⟩
    · rw [hp] at hjson ⊢
      exact ⟨inOrder_of_sublist eventKeys (List.Sublist.refl _) (by decide) (by decide), trivial,
        trivial, trivial, trivial, trivial, hjson, trivial, trivial⟩
  have htext : (Json.object (@writtenMembers N numbers counting event)).stringify numbers.print =
      some (event.json counting.ofNat numbers.print) := by
    rw [writtenMembers, PublicAgentEvent.json, PublicAgentEvent.toJson]
    rcases h.payload with hp | ⟨members, hp, -⟩
    · rw [hp]
      rfl
    · rw [hp]
      rfl
  exact Json.parse_stringify numbers.toNumberText hvalid htext

theorem isNonNegativeInteger_digits (n : ℕ) : isNonNegativeInteger (Nat.toDigits 10 n) = true := by
  rw [isNonNegativeInteger, Bool.and_eq_true, List.all_eq_true, decide_eq_true_eq]
  exact ⟨Nat.toDigits_ne_nil, fun c hc => Nat.isDigit_of_mem_toDigits (by decide) (by decide) hc⟩

/-- The frame of an event is parsed as the event. -/
theorem parseAgentEvent_frame (h : Publishable counting event) :
    parseAgentEvent (ε := ε) numbers
        ⟨some (numbers.print (counting.ofNat event.sequence)), some event.type,
          [event.json counting.ofNat numbers.print]⟩ =
      .ok (some (received counting event, counting.ofNat event.sequence)) := by
  have htype : ((some event.type).any fun t => decide (t ≠ (received counting event).type)) =
      false := by
    simp [received]
  rw [parseAgentEvent, if_neg (by simp)]
  have hjoin : joinLines [event.json counting.ofNat numbers.print] =
      event.json counting.ofNat numbers.print := by
    simp [joinLines, List.intercalate]
  rw [hjoin, parse_json h]
  dsimp only
  rw [readFields_written h]
  dsimp only
  rw [htype, if_neg Bool.false_ne_true, counting.print _ h.sequence,
    isNonNegativeInteger_digits, counting.ofDigits _ h.sequence]
  have hequal : numbers.equal (counting.ofNat event.sequence) (received counting event).sequence =
      true := counting.equal _ h.sequence
  rw [hequal]
  rfl

end Parse

section Reading

variable {counting} {listener : Listener N σ ε} {c c' c'' : Consumer N σ ε}
  {event : PublicAgentEvent N} {told : List (PublicAgentEvent N)} {last : Option ℕ} {calm : Prop}

/-- The callback never fails, and the caller never aborts the signal. -/
structure Listener.Quiet (listener : Listener N σ ε) : Prop where
  onEvent : ∀ s event, (listener.onEvent s event).2 = none
  aborted : ∀ s, listener.aborted s = false

/-- The number of the last event that the client was told. -/
def position (last : Option ℕ) (told : List (PublicAgentEvent N)) : Option ℕ :=
  (told.getLast?.map (·.sequence)).or last

theorem position_cons (last : Option ℕ) (event : PublicAgentEvent N)
    (told : List (PublicAgentEvent N)) :
    position last (event :: told) = position (some event.sequence) told := by
  cases told with
  | nil => rfl
  | cons next told =>
    rw [position, position, List.getLast?_cons_cons, List.getLast?_cons]
    rfl

theorem position_append (last : Option ℕ) (told more : List (PublicAgentEvent N)) :
    position last (told ++ more) = position (position last told) more := by
  induction told generalizing last with
  | nil => rfl
  | cons event told ih => rw [List.cons_append, position_cons, ih, position_cons]

/-- Between two frames. -/
structure Ready (counting : Counting numbers) (last : Option ℕ) (c : Consumer N σ ε) : Prop where
  frame : c.frame = .empty
  acceptedSequence : c.acceptedSequence = last.map counting.ofNat
  terminal : c.terminal = false
  thrown : c.thrown = none

/-- What a reader has made of the events that it was told; `calm` tells that nothing but the stream
can stop it. -/
structure Reading (counting : Counting numbers) (calm : Prop) (last : Option ℕ)
    (c c' : Consumer N σ ε) (told : List (PublicAgentEvent N)) : Prop where
  events : c'.events = c.events ++ told.map (received counting)
  early : ∀ event ∈ told.dropLast, ¬IsTerminal event
  terminal : c'.thrown = none → (c'.terminal = true ↔ ∃ event ∈ told, IsTerminal event)
  acceptedSequence : c'.thrown = none →
    c'.acceptedSequence = (position last told).map counting.ofNat
  acceptedId : c'.thrown = none → c'.acceptedId =
    (told.getLast?.map fun event => counting.ofNat event.sequence).or c.acceptedId
  progress : c'.thrown = none → c'.progress = c.progress ++
    told.map fun event => (counting.ofNat event.sequence, counting.ofNat event.sequence)
  thrown : ∀ message, c'.thrown ≠ some (.protocol message)
  quiet : calm → c'.thrown = none

theorem Ready.not_halted (h : Ready counting last c) : c.halted = false := by
  rw [Consumer.halted, h.terminal, h.thrown]
  rfl

theorem reading_nothing (h : Ready counting last c) (frame : SseFrame) :
    Reading counting calm last c { c with frame := frame } [] where
  events := (List.append_nil _).symm
  early _ hmem := nomatch hmem
  terminal _ := by simp [h.terminal]
  acceptedSequence _ := h.acceptedSequence
  acceptedId _ := rfl
  progress _ := (List.append_nil _).symm
  thrown message heq := by
    rw [h.thrown] at heq
    cases heq
  quiet _ := h.thrown

/-- One event that is handed on. -/
theorem acceptEvent_step (h : Ready counting last c) (hcalm : calm → listener.Quiet)
    (event : PublicAgentEvent N) :
    Reading counting calm last c
        (acceptEvent listener c (received counting event) (counting.ofNat event.sequence)) [event] ∧
      ((acceptEvent listener c (received counting event)
          (counting.ofNat event.sequence)).halted = false →
        ¬IsTerminal event ∧ Ready counting (some event.sequence)
          (acceptEvent listener c (received counting event) (counting.ofNat event.sequence))) := by
  have hterminal : terminalEventTypes.contains (received counting event).type = true ↔
      IsTerminal event := List.contains_iff_mem
  rw [acceptEvent]
  dsimp only
  split
  · next haborted =>
    refine ⟨⟨rfl, ?_, ?_, ?_, ?_, ?_, ?_, fun hquiet => ?_⟩, ?_⟩
    case refine_7 => simp [(hcalm hquiet).aborted] at haborted
    all_goals simp [Consumer.halted]
  · split
    · next error hfailed =>
      refine ⟨⟨rfl, ?_, ?_, ?_, ?_, ?_, fun message => ?_, fun hquiet => ?_⟩, ?_⟩
      case refine_6 => split <;> simp
      case refine_7 => simp [(hcalm hquiet).onEvent] at hfailed
      all_goals simp [Consumer.halted]
    · refine ⟨⟨rfl, ?_, ?_, fun _ => rfl, fun _ => rfl, fun _ => rfl, ?_, fun _ => h.thrown⟩, ?_⟩
      · simp
      · intro _
        rw [h.terminal, Bool.false_or, hterminal]
        simp
      · intro message heq
        rw [h.thrown] at heq
        cases heq
      · intro hhalted
        rw [Consumer.halted, Bool.or_eq_false_iff, h.terminal, Bool.false_or] at hhalted
        refine ⟨fun hmem => ?_, h.frame, rfl, ?_, h.thrown⟩
        · rw [hterminal.mpr hmem] at hhalted
          cases hhalted.1
        · rw [h.terminal, Bool.false_or]
          exact hhalted.1

theorem Reading.cons (h : Reading counting calm last c c' [event])
    (hterminal : ¬IsTerminal event) (hthrown : c'.thrown = none)
    (hrest : Reading counting calm (some event.sequence) c' c'' told) :
    Reading counting calm last c c'' (event :: told) where
  events := by
    rw [hrest.events, h.events, List.append_assoc]
    rfl
  early e he := by
    cases told with
    | nil => cases he
    | cons next told =>
      rw [List.dropLast_cons_cons] at he
      rcases List.mem_cons.mp he with rfl | he
      · exact hterminal
      · exact hrest.early e he
  terminal hnone := by
    rw [hrest.terminal hnone]
    simp [hterminal]
  acceptedSequence hnone := by
    rw [hrest.acceptedSequence hnone, position_cons]
  acceptedId hnone := by
    rw [hrest.acceptedId hnone, h.acceptedId hthrown]
    cases told with
    | nil => rfl
    | cons next told =>
      rw [List.getLast?_cons_cons, List.getLast?_cons]
      rfl
  progress hnone := by
    rw [hrest.progress hnone, h.progress hthrown, List.append_assoc]
    rfl
  thrown := hrest.thrown
  quiet := hrest.quiet

theorem readLine_of_ne {line : Text} (h : line ≠ []) (c : Consumer N σ ε) :
    readLine numbers listener c line = { c with frame := processLine c.frame line } := if_neg h

/-- The lines of a frame, up to its end. -/
theorem feed_body {body : List Text} (hbody : ∀ line ∈ body, line ≠ [])
    (hc : c.halted = false) :
    feed (readLine numbers listener) Consumer.halted c body =
      { c with frame := body.foldl processLine c.frame } := by
  induction body generalizing c with
  | nil => rfl
  | cons line body ih =>
    have hnot : ¬(({ c with frame := processLine c.frame line } : Consumer N σ ε).halted = true) :=
      by simpa [Consumer.halted] using hc
    rw [feed, readLine_of_ne (hbody line List.mem_cons_self), if_neg hnot,
      ih (fun l hl => hbody l (List.mem_cons_of_mem _ hl)) (by simpa using hnot), List.foldl_cons]

end Reading

section Connection

variable {counting} {listener : Listener N σ ε} {c : Consumer N σ ε} {event : PublicAgentEvent N}
  {last : Option ℕ} {calm : Prop}

theorem readLine_nil (c : Consumer N σ ε) :
    readLine numbers listener c [] = dispatchFrame numbers listener c := if_pos rfl

/-- The fields of a frame. -/
def frameOf (counting : Counting numbers) (w : Write (PublicAgentEvent N)) : SseFrame :=
  (w.body counting.ofNat numbers.print).foldl processLine .empty

theorem dispatch_heartbeat (h : Ready counting last c) :
    dispatchFrame numbers listener { c with frame := frameOf counting .heartbeat } = c := by
  have hempty : parseAgentEvent (ε := ε) numbers (frameOf counting .heartbeat) = .ok none := rfl
  rw [dispatchFrame]
  dsimp only
  rw [hempty, ← h.frame]

theorem dispatch_event (h : Ready counting last c) (hpub : Publishable counting event)
    (hafter : ∀ n ∈ last, n < event.sequence) :
    dispatchFrame numbers listener { c with frame := frameOf counting (.publicEvent event) } =
      acceptEvent listener c (received counting event) (counting.ofNat event.sequence) := by
  have hframe : frameOf counting (.publicEvent event) =
      ⟨some (numbers.print (counting.ofNat event.sequence)), some event.type,
        [event.json counting.ofNat numbers.print]⟩ := rfl
  have hnew : (c.acceptedSequence.any
      (numbers.atMost (received counting event).sequence)) = false := by
    rw [h.acceptedSequence]
    cases last with
    | none => rfl
    | some n =>
      have hlt := hafter n rfl
      have hle := hpub.sequence
      rw [Option.map_some, Option.any_some, received, counting.atMost _ hle n (by omega)]
      exact decide_eq_false (by omega)
  rw [hframe, dispatchFrame]
  dsimp only
  rw [parseAgentEvent_frame hpub]
  dsimp only
  rw [hnew, ← h.frame]
  rfl

/-- A whole frame is read, and then what follows it. -/
theorem feed_frame (h : Ready counting last c) (w : Write (PublicAgentEvent N)) (more : List Text) :
    feed (readLine numbers listener) Consumer.halted c
        (w.lines counting.ofNat numbers.print ++ more) =
      feed (readLine numbers listener) Consumer.halted { c with frame := frameOf counting w }
        ([] :: more) := by
  have hbody := @feed_body _ _ _ numbers listener c _
    (@body_ne_nil _ counting.ofNat numbers.print w) h.not_halted
  rw [h.frame] at hbody
  have hnot : ¬({ c with frame := frameOf counting w } : Consumer N σ ε).halted = true := by
    rw [Consumer.halted, h.terminal, h.thrown]
    exact Bool.false_ne_true
  rw [Write.lines, List.append_assoc, feed_append _ _ _ _ h.not_halted, hbody]
  exact if_neg hnot

/-- The events of a connection that is cut: some of the first ones, each whole and in order. -/
theorem reading_writes {ws : List (Write (PublicAgentEvent N))} {read : List Text} (h : Ready counting last c)
    (hcalm : calm → listener.Quiet)
    (hpub : ∀ event ∈ ws.filterMap Write.event?, Publishable counting event)
    (hafter : ∀ event ∈ ws.filterMap Write.event?, ∀ n ∈ last, n < event.sequence)
    (hsorted : (ws.filterMap Write.event?).Pairwise fun a b => a.sequence < b.sequence)
    (hread : read <+: ws.flatMap (Write.lines counting.ofNat numbers.print)) :
    ∃ told, told <+: ws.filterMap Write.event? ∧
      Reading counting calm last c
        (feed (readLine numbers listener) Consumer.halted c read) told := by
  induction ws generalizing last c read with
  | nil =>
    cases List.prefix_nil.mp hread
    exact ⟨[], List.prefix_rfl, reading_nothing h c.frame⟩
  | cons w ws ih =>
    rw [List.flatMap_cons] at hread
    have hcases : read <+: w.body counting.ofNat numbers.print ∨
        ∃ more, more <+: ws.flatMap (Write.lines counting.ofNat numbers.print) ∧
          read = w.lines counting.ofNat numbers.print ++ more := by
      rcases List.prefix_or_prefix_of_prefix hread (List.prefix_append _ _) with hw | ⟨more, rfl⟩
      · rcases List.prefix_concat_iff.mp hw with rfl | hw
        · exact .inr ⟨[], List.nil_prefix, (List.append_nil _).symm⟩
        · exact .inl hw
      · exact .inr ⟨more, (List.prefix_append_right_inj _).mp hread, rfl⟩
    rcases hcases with hbody | ⟨more, hmore, rfl⟩
    · rw [feed_body (fun line hline => body_ne_nil w line (hbody.subset hline)) h.not_halted]
      exact ⟨[], List.nil_prefix, reading_nothing h _⟩
    · rw [feed_frame h, feed, readLine_nil]
      cases w with
      | heartbeat =>
        rw [dispatch_heartbeat h, h.not_halted, if_neg Bool.false_ne_true]
        exact ih h hpub hafter hsorted hmore
      | publicEvent event =>
        have hevent := hpub event (by simp [Write.event?])
        rw [dispatch_event h hevent (hafter event (by simp [Write.event?]))]
        obtain ⟨hone, hready⟩ := @acceptEvent_step N σ ε numbers counting listener c last calm h
          hcalm event
        have hws : (Write.publicEvent event :: ws).filterMap Write.event? =
            event :: ws.filterMap Write.event? := rfl
        rw [hws] at hpub hsorted ⊢
        obtain ⟨hfirst, hsorted⟩ := List.pairwise_cons.mp hsorted
        split
        · exact ⟨[event], ⟨_, rfl⟩, hone⟩
        · next hhalted =>
          rw [Bool.not_eq_true] at hhalted
          obtain ⟨hnot, hnext⟩ := hready hhalted
          obtain ⟨told, htold, hrest⟩ := ih hnext
            (fun e he => hpub e (List.mem_cons_of_mem _ he))
            (fun e he n hn => Option.some.inj hn ▸ hfirst e he) hsorted hmore
          exact ⟨event :: told, List.cons_prefix_cons.mpr ⟨rfl, htold⟩,
            hone.cons hnot hnext.thrown hrest⟩

end Connection

end AgentEventStream
end AppBuilder.Web
