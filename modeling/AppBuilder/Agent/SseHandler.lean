import AppBuilder.Agent.EventSequence
import AppBuilder.Agent.SseStream
import Mathlib.Data.List.Sort

/-! `streamAgentRunEvents`: one connection, beside the calls that emit events. -/
namespace AppBuilder.Agent
namespace SseStream
open Async Store

section Handler

/-- What the handler waits for. -/
inductive Awaiting where
  | subscription
  | backlog
  | nothing
  deriving DecidableEq

/-- The variables of the handler, and what it has written. `heartbeat` tells that the interval is
set. -/
structure Handler where
  closed : Bool
  backlogLoaded : Bool
  subscriptionReady : Bool
  heartbeat : Bool
  lastWrittenSequence : ℕ
  bufferedEvents : List SerializedAgentEvent
  awaiting : Awaiting
  written : List (Write SerializedAgentEvent)

def Handler.start (lastEventId : Option ℕ) : Handler where
  closed := false
  backlogLoaded := false
  subscriptionReady := false
  heartbeat := false
  lastWrittenSequence := lastEventId.getD 0
  bufferedEvents := []
  awaiting := .subscription
  written := []

def cleanup (h : Handler) : Handler := { h with closed := true, heartbeat := false }

/-- `writable` tells that `res.write` does not throw. -/
def writeEvent (writable : Bool) (h : Handler) (event : SerializedAgentEvent) : Handler :=
  if h.closed || event.sequence ≤ h.lastWrittenSequence then h
  else if writable then
    { h with
      written := h.written ++ [.publicEvent event]
      lastWrittenSequence := event.sequence }
  else cleanup h

def writeHeartbeat (writable : Bool) (h : Handler) : Handler :=
  if h.closed then h
  else if writable then { h with written := h.written ++ [.heartbeat] }
  else cleanup h

/-- The message is an event, which the channel of the run carries. -/
def messageHandler (runId : ObjectId) (writable : Bool) (h : Handler)
    (event : SerializedAgentEvent) : Handler :=
  if event.runId ≠ runId ∨ h.closed then h
  else if !h.backlogLoaded then { h with bufferedEvents := h.bufferedEvents ++ [event] }
  else writeEvent writable h event

def inOrder (events : List SerializedAgentEvent) : List SerializedAgentEvent :=
  events.insertionSort fun a b => a.sequence ≤ b.sequence

/-- The events that were found and those that arrived meanwhile, in the order of their numbers. -/
def drain (writable : SerializedAgentEvent → Bool) (h : Handler)
    (durableEvents : List SerializedAgentEvent) : Handler :=
  { (inOrder (durableEvents ++ h.bufferedEvents)).foldl
      (fun h event => writeEvent (writable event) h event) h with
    backlogLoaded := true
    awaiting := .nothing }

end Handler

structure StreamRequest where
  runId : ObjectId
  userId : ObjectId
  lastEventId : Option ℕ

def StreamRequest.after (request : StreamRequest) (event : AgentEvent) : Bool :=
  request.lastEventId.all (· < event.sequence)

def loadDurableEvents (request : StreamRequest) (w : World) : List SerializedAgentEvent :=
  inOrder (((w.log request.runId).filter fun event =>
    event.userId == request.userId && request.after event).map serializeAgentEvent)

section System

/-- A connection beside the calls of `emitAgentEvent`. `published` lists the messages of the run's
channel; those from `subscribed` on reach the handler, and `delivered` of them have. `found` is the
answer of the backlog query on its way. -/
structure Session where
  emitters : Emitters
  published : List SerializedAgentEvent
  subscribed : Option ℕ
  delivered : ℕ
  found : Option (List SerializedAgentEvent)
  handler : Handler

def Session.log (s : Session) (request : StreamRequest) : List AgentEvent :=
  s.emitters.state.log request.runId

inductive SessionLabel where
  | emit (l : Label api EmitAgentEventInput Empty)
  | subscribe
  | acknowledge
  | refuse
  | query
  | load (writable : SerializedAgentEvent → Bool)
  | loadFails
  | deliver (writable : Bool)
  | beat (writable : Bool)
  | disconnect

/-- The message that a step of a call publishes on the channel of a run. -/
def publishes (runId : ObjectId) (c : Emitters) :
    Label api EmitAgentEventInput Empty → Option SerializedAgentEvent
  | .advance t _ => match c.pending t with
    | some (.publish channel message) => if channel = runId then some message else none
    | _ => none
  | _ => none

variable (request : StreamRequest)

/-- Every event of the run that is stored at the start has been published. -/
def Session.initial (w : World) : Session where
  emitters := .initial w
  published := (w.log request.runId).map serializeAgentEvent
  subscribed := none
  delivered := 0
  found := none
  handler := .start request.lastEventId

def Session.step (s : Session) : SessionLabel → Option Session
  | .emit l => (Agent.emitters.step s.emitters l).map fun c =>
    { s with
      emitters := c
      published := s.published ++ (publishes request.runId s.emitters l).toList }
  | .subscribe =>
    if s.subscribed = none then some { s with subscribed := some s.published.length } else none
  | .acknowledge =>
    if s.handler.awaiting = .subscription ∧ s.subscribed ≠ none then
      some { s with handler := { s.handler with
        subscriptionReady := true
        heartbeat := !s.handler.closed
        awaiting := if s.handler.closed then .nothing else .backlog } }
    else none
  | .refuse =>
    if s.handler.awaiting = .subscription then
      some { s with handler := { cleanup s.handler with awaiting := .nothing } }
    else none
  | .query =>
    if s.handler.awaiting = .backlog ∧ s.found = none then
      some { s with found := some (loadDurableEvents request s.emitters.state) }
    else none
  | .load writable =>
    match s.handler.awaiting, s.found with
    | .backlog, some durableEvents =>
      if s.handler.closed then some { s with handler := { s.handler with awaiting := .nothing } }
      else some { s with handler := drain writable s.handler durableEvents }
    | _, _ => none
  | .loadFails =>
    if s.handler.awaiting = .backlog then
      some { s with handler := { cleanup s.handler with awaiting := .nothing } }
    else none
  | .deliver writable =>
    match s.subscribed.bind fun start => s.published[start + s.delivered]? with
    | some message =>
      some { s with
        delivered := s.delivered + 1
        handler := messageHandler request.runId writable s.handler message }
    | none => none
  | .beat writable =>
    if s.handler.heartbeat then some { s with handler := writeHeartbeat writable s.handler }
    else none
  | .disconnect => some { s with handler := cleanup s.handler }

/-- Every state of every run whose steps all satisfy `ok`. -/
inductive Session.Reached (ok : Session → SessionLabel → Prop) (w : World) : Session → Prop where
  | start : Session.Reached ok w (.initial request w)
  | step {s s' : Session} {l : SessionLabel} (h : Session.Reached ok w s) (hl : ok s l)
      (hstep : s.step request l = some s') : Session.Reached ok w s'

/-- An event is published after the events before it, and the calls for the run are made for its
user. -/
def PublishedInOrder (s : Session) : SessionLabel → Prop
  | .emit (.spawn input) => input.runId = request.runId → input.userId = request.userId
  | .emit l => ∀ message ∈ publishes request.runId s.emitters l, ∀ event ∈ s.log request,
    event.sequence < message.sequence → serializeAgentEvent event ∈ s.published
  | _ => True

/-- The state after the steps, if each of them can be taken. -/
def Session.play (s : Session) : List SessionLabel → Option Session
  | [] => some s
  | l :: ls => (s.step request l).bind fun s' => Session.play s' ls

/-- Each step satisfies `ok`, read in the state it is taken from. -/
def Session.Along (ok : Session → SessionLabel → Prop) (s : Session) : List SessionLabel → Prop
  | [] => True
  | l :: ls => ok s l ∧ ∀ s' ∈ s.step request l, Session.Along ok s' ls

variable {request}

theorem reached_play {ok : Session → SessionLabel → Prop} {w : World} {s s' : Session}
    (ls : List SessionLabel) (h : Session.Reached request ok w s)
    (ha : Session.Along request ok s ls) (hp : Session.play request s ls = some s') :
    Session.Reached request ok w s' := by
  induction ls generalizing s with
  | nil =>
    cases hp
    exact h
  | cons l ls ih =>
    obtain ⟨hok, hrest⟩ := ha
    obtain ⟨next, hnext, hp⟩ := Option.bind_eq_some_iff.mp hp
    exact ih (h.step hok hnext) (hrest next hnext) hp

instance (s : Session) : DecidablePred (PublishedInOrder request s)
  | .emit (.spawn input) => inferInstanceAs (Decidable (input.runId = request.runId → _))
  | .emit (.advance t o) => inferInstanceAs (Decidable
      (∀ message ∈ publishes request.runId s.emitters (.advance t o), ∀ event ∈ s.log request,
        event.sequence < message.sequence → serializeAgentEvent event ∈ s.published))
  | .emit (.crash _) => isTrue (by rintro _ ⟨⟩)
  | .subscribe | .acknowledge | .refuse | .query | .load _ | .loadFails | .deliver _ | .beat _
  | .disconnect => isTrue trivial

instance decidableAlong (ok : Session → SessionLabel → Prop) [∀ s, DecidablePred (ok s)] :
    ∀ (s : Session) (ls : List SessionLabel), Decidable (Session.Along request ok s ls)
  | _, [] => isTrue trivial
  | s, l :: ls =>
    haveI := fun s' => decidableAlong ok s' ls
    inferInstanceAs (Decidable (ok s l ∧ ∀ s' ∈ s.step request l, Session.Along request ok s' ls))

end System

end SseStream
end AppBuilder.Agent
