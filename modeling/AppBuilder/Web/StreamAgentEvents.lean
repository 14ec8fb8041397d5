import AppBuilder.Encoding.LineFeed
import AppBuilder.Encoding.Path
import AppBuilder.Web.AgentEventStream
import Mathlib.Data.Rat.Floor

/-! `streamAgentEvents`: the events of a run over any number of connections. -/
namespace AppBuilder.Web
namespace AgentEventStream
open Encoding

inductive AgentStreamState where
  | connected
  | retrying
  deriving DecidableEq

/-- How the body of a response ends: it is closed, reading it fails, or the signal is aborted. -/
inductive Ending where
  | closed
  | failed
  | aborted
  deriving DecidableEq

structure Response where
  status : ℕ
  statusText : Text
  contentType : Option Text
  body : Option (List (List ℕ) × Ending)

/-- What comes of a request. -/
inductive Reply where
  | response (response : Response)
  | rejected
  | aborted

/-- One pass through the loop: what comes of the request, and whether the signal is aborted in the
pause after it. -/
structure Round where
  reply : Reply
  abortedAsleep : Bool

inductive Failure (ε : Type) where
  | stream (error : StreamError ε)
  | http (status : ℕ) (statusText : Text)
  | retryable

structure StreamOptions (N σ ε : Type) where
  listener : Listener N σ ε
  onState : σ → AgentStreamState → σ × Option ε
  lastEventId : Option N
  /-- A number that is not finite is `none`. -/
  maxReconnectAttempts : Option (Option ℚ)

def normalizeReconnectAttempts : Option (Option ℚ) → ℕ
  | none => 3
  | some none => 0
  | some (some value) => if value < 0 then 0 else ⌊value⌋.toNat

def Response.ok (response : Response) : Bool := 200 ≤ response.status && response.status ≤ 299

def noBody : String := "Agent event stream response has no body"

def otherType : String := "Agent event stream response is not text/event-stream"

variable {N σ ε : Type}

/-- The body that is read, if the response is accepted. -/
def Response.accept (response : Response) : Except (Failure ε) (List (List ℕ) × Ending) :=
  if !response.ok then
    if response.status ≥ 500 then .error .retryable
    else .error (.http response.status response.statusText)
  else match response.body with
  | none => .error (.stream (.protocol noBody))
  | some body =>
    if response.contentType.any fun contentType =>
        includes (contentType.map Char.toLower) (text "text/event-stream") then .ok body
    else .error (.stream (.protocol otherType))

/-- What comes of a connection: what the caller was told, the state it is left with, and how the
connection ended. -/
structure Exchange (N σ ε : Type) where
  events : List (AgentEvent N)
  progress : List (N × N)
  caller : σ
  outcome : Except (Failure ε) (ConsumeResult N)

/-- Before anything arrives. -/
def Exchange.failed (caller : σ) (failure : Failure ε) : Exchange N σ ε :=
  ⟨[], [], caller, .error failure⟩

def Exchange.of (consumption : Consumption N σ ε) : Exchange N σ ε where
  events := consumption.events
  progress := consumption.progress
  caller := consumption.caller
  outcome := consumption.outcome.mapError .stream

variable (numbers : Numbers N)

/-- `consumeResponse`, where reading the body fails after the chunks. -/
def consumeArrived (listener : Listener N σ ε) (lastSequence : Option N) (caller : σ)
    (chunks : List (List ℕ)) (failure : Failure ε) : Exchange N σ ε :=
  let consumer := Consumer.start lastSequence caller
  if listener.aborted caller then .of { consumer with thrown := some .abort }.finish
  else
    let consumer := readArrived (readLine numbers listener) Consumer.halted consumer
      TextDecoder.new [] chunks
    if consumer.halted then .of consumer.finish
    else { Exchange.of consumer.finish with outcome := .error failure }

def consumeBody (listener : Listener N σ ε) (lastSequence : Option N) (caller : σ)
    (chunks : List (List ℕ)) : Ending → Exchange N σ ε
  | .closed => .of (consumeResponse numbers listener lastSequence caller chunks)
  | .failed => consumeArrived numbers listener lastSequence caller chunks .retryable
  | .aborted => consumeArrived numbers listener lastSequence caller chunks (.stream .abort)

/-- The variables `lastEventId` and `lastSequence`. -/
structure Cursor (N : Type) where
  lastEventId : Option N
  lastSequence : Option N

/-- The body of the `try` block, up to what it makes of the result. -/
def connect (options : StreamOptions N σ ε) (cursor : Cursor N) (caller : σ) :
    Reply → Exchange N σ ε
  | .rejected => .failed caller .retryable
  | .aborted => .failed caller (.stream .abort)
  | .response response =>
    match response.accept with
    | .error failure => .failed caller failure
    | .ok (chunks, ending) =>
      match options.onState caller .connected with
      | (caller, some error) => .failed caller (.stream (.application error))
      | (caller, none) =>
        consumeBody numbers options.listener cursor.lastSequence caller chunks ending

/-- The calls of `onProgress`. -/
def Cursor.onProgress (cursor : Cursor N) (progress : List (N × N)) : Cursor N :=
  progress.foldl (fun _ told => ⟨some told.1, some told.2⟩) cursor

/-- The variables after a connection: `onProgress` sets them, and then the result does. -/
def Cursor.advance (cursor : Cursor N) (exchange : Exchange N σ ε) : Cursor N :=
  let told := cursor.onProgress exchange.progress
  match exchange.outcome with
  | .ok result => ⟨result.lastEventId.or told.lastEventId, result.lastSequence⟩
  | .error _ => told

inductive Thrown (ε : Type) where
  | abort
  | original (error : ε)
  | protocol (message : String)
  | http (status : ℕ) (statusText : Text)

inductive StreamOutcome (N ε : Type) where
  | terminal (lastEventId : Option N)
  | exhausted (lastEventId : Option N)
  | thrown (error : Thrown ε)

/-- The end of the loop, unless it connects again. -/
def settle (listener : Listener N σ ε) (cursor : Cursor N) (exchange : Exchange N σ ε) :
    Option (StreamOutcome N ε) :=
  if listener.aborted exchange.caller then some (.thrown .abort)
  else match exchange.outcome with
  | .ok result => if result.terminal then some (.terminal cursor.lastEventId) else none
  | .error (.stream .abort) => some (.thrown .abort)
  | .error (.stream (.application error)) => some (.thrown (.original error))
  | .error (.stream (.protocol message)) => some (.thrown (.protocol message))
  | .error (.http status statusText) => some (.thrown (.http status statusText))
  | .error .retryable => none

/-- The calls of `onEvent`, and what the stream comes to. -/
structure Streaming (N ε : Type) where
  events : List (AgentEvent N)
  outcome : StreamOutcome N ε

variable (options : StreamOptions N σ ε) (fetchImpl : ℕ → Option N → Round)

/-- The loop, with the number of reconnects that are left and the number of requests so far. What
comes of a request may depend on the `Last-Event-ID` that it sends. -/
def streamLoop (remaining requests : ℕ) (cursor : Cursor N) (caller : σ) : Streaming N ε :=
  if options.listener.aborted caller then ⟨[], .thrown .abort⟩
  else
    let round := fetchImpl requests cursor.lastEventId
    let exchange := connect numbers options cursor caller round.reply
    let cursor := cursor.advance exchange
    match settle options.listener cursor exchange with
    | some outcome => ⟨exchange.events, outcome⟩
    | none =>
      match remaining with
      | 0 => ⟨exchange.events, .exhausted cursor.lastEventId⟩
      | remaining + 1 =>
        match options.onState exchange.caller .retrying with
        | (_, some error) => ⟨exchange.events, .thrown (.original error)⟩
        | (caller, none) =>
          if options.listener.aborted caller || round.abortedAsleep then
            ⟨exchange.events, .thrown .abort⟩
          else
            let rest := streamLoop remaining (requests + 1) cursor caller
            ⟨exchange.events ++ rest.events, rest.outcome⟩

def streamAgentEvents (caller : σ) : Streaming N ε :=
  streamLoop numbers options fetchImpl
    (normalizeReconnectAttempts options.maxReconnectAttempts) 0
    ⟨options.lastEventId, options.lastEventId⟩ caller

end AgentEventStream
end AppBuilder.Web
