import AppBuilder.Encoding.JsonParse
import AppBuilder.Encoding.LineStream

/-! `apps/web/src/services/agentEventStream.ts`: the events of a run as they arrive. -/
namespace AppBuilder.Web
namespace AgentEventStream
open Encoding

def publicAgentEventTypes : List Text :=
  ["run.created", "run.started", "agent.step", "agent.plan", "file.changed", "validation.started",
    "validation.step", "validation.failed", "validation.passed", "repair.started", "run.completed",
    "run.failed", "run.cancelled"].map text

def terminalEventTypes : List Text := ["run.completed", "run.failed", "run.cancelled"].map text

/-- The numbers of the language, as far as the stream compares them. -/
structure Numbers (N : Type) extends Json.NumberText N where
  isFinite : N → Bool
  isInteger : N → Bool
  isNegative : N → Bool
  atMost : N → N → Bool
  equal : N → N → Bool
  /-- `Number(text)` of a text of digits. -/
  ofDigits : Text → N

structure AgentEvent (N : Type) where
  sequence : N
  type : Text
  message : Text
  payload : Option (List (Text × Json N))

structure SseFrame where
  id : Option Text
  event : Option Text
  data : List Text
  deriving DecidableEq

def SseFrame.empty : SseFrame := ⟨none, none, []⟩

inductive StreamError (ε : Type) where
  | abort
  | protocol (message : String)
  | application (original : ε)
  deriving DecidableEq

variable {N σ ε : Type}

/-- What the caller does with an event; `σ` is the state that it keeps, and by it the caller may have
aborted the signal. -/
structure Listener (N σ ε : Type) where
  onEvent : σ → AgentEvent N → σ × Option ε
  isAbortError : ε → Bool
  aborted : σ → Bool

def isNonNegativeInteger (value : Text) : Bool := value ≠ [] && value.all Char.isDigit

/-- A property of the parsed object. -/
def property (members : List (Text × Json N)) (key : String) : Json N :=
  (members.lookup (text key)).getD .undefined

def invalidFrame (problem : String) : StreamError ε :=
  .protocol ("Invalid agent event stream frame: " ++ problem)

def readPayload : Json N → Option (Option (List (Text × Json N)))
  | .undefined => some none
  | .object payload => some (some payload)
  | _ => none

/-- The fields of an event, where each has its type. -/
def readFields (numbers : Numbers N) (members : List (Text × Json N)) : Option (AgentEvent N) :=
  match property members "sequence", property members "type", property members "message",
    readPayload (property members "payload") with
  | .number sequence, .string type, .string message, some payload =>
    if !numbers.isFinite sequence || !numbers.isInteger sequence ||
        numbers.isNegative sequence || !publicAgentEventTypes.contains type then none
    else some ⟨sequence, type, message, payload⟩
  | _, _, _, _ => none

def joinLines (lines : List Text) : Text := List.intercalate ['\n'] lines

def parseAgentEvent (numbers : Numbers N) (frame : SseFrame) :
    Except (StreamError ε) (Option (AgentEvent N × N)) :=
  if frame.data = [] then .ok none
  else match Json.parse numbers.toNumberText (joinLines frame.data) with
  | none => .error (invalidFrame "data is not valid JSON")
  | some (.object members) =>
    match readFields numbers members with
    | none => .error (invalidFrame "invalid event fields")
    | some event =>
      if frame.event.any (· ≠ event.type) then
        .error (invalidFrame "event type does not match data")
      else match frame.id with
      | none => .error (invalidFrame "id does not match sequence")
      | some id =>
        if !isNonNegativeInteger id || !numbers.equal (numbers.ofDigits id) event.sequence then
          .error (invalidFrame "id does not match sequence")
        else .ok (some (event, numbers.ofDigits id))
  | some _ => .error (invalidFrame "data must be an object")

def dropBlank : Text → Text
  | ' ' :: rest => rest
  | value => value

def processLine (frame : SseFrame) (line : Text) : SseFrame :=
  if line.head? = some ':' then frame
  else
    let field := line.takeWhile (· ≠ ':')
    let value := dropBlank ((line.dropWhile (· ≠ ':')).drop 1)
    if field = text "id" then { frame with id := some value }
    else if field = text "event" then { frame with event := some value }
    else if field = text "data" then { frame with data := frame.data ++ [value] }
    else frame

/-- The variables of `consumeResponse`, the state of its caller, and what the caller has been told:
the events in their order, and each call of `onProgress`. -/
structure Consumer (N σ ε : Type) where
  frame : SseFrame
  acceptedSequence : Option N
  acceptedId : Option N
  terminal : Bool
  thrown : Option (StreamError ε)
  caller : σ
  events : List (AgentEvent N)
  progress : List (N × N)

variable (numbers : Numbers N) (listener : Listener N σ ε)

def acceptEvent (consumer : Consumer N σ ε) (event : AgentEvent N) (id : N) : Consumer N σ ε :=
  let (caller, failure) := listener.onEvent consumer.caller event
  let told := { consumer with caller := caller, events := consumer.events ++ [event] }
  if listener.aborted caller then { told with thrown := some .abort }
  else match failure with
  | some error =>
    { told with
      thrown := some (if listener.isAbortError error then .abort else .application error) }
  | none =>
    { told with
      acceptedSequence := some event.sequence
      acceptedId := some id
      progress := consumer.progress ++ [(id, event.sequence)]
      terminal := consumer.terminal || terminalEventTypes.contains event.type }

def dispatchFrame (consumer : Consumer N σ ε) : Consumer N σ ε :=
  match parseAgentEvent numbers consumer.frame with
  | .error error => { consumer with thrown := some error }
  | .ok none => { consumer with frame := .empty }
  | .ok (some (event, id)) =>
    if consumer.acceptedSequence.any (numbers.atMost event.sequence) then
      { consumer with frame := .empty }
    else acceptEvent listener { consumer with frame := .empty } event id

def readLine (consumer : Consumer N σ ε) (line : Text) : Consumer N σ ε :=
  if line = [] then dispatchFrame numbers listener consumer
  else { consumer with frame := processLine consumer.frame line }

/-- The loop over the lines is left. -/
def Consumer.halted (consumer : Consumer N σ ε) : Bool :=
  consumer.terminal || consumer.thrown.isSome

structure ConsumeResult (N : Type) where
  terminal : Bool
  lastEventId : Option N
  lastSequence : Option N

/-- A call of `consumeResponse`: what the caller was told, the state it is left with, and the result
or what was thrown. -/
structure Consumption (N σ ε : Type) where
  events : List (AgentEvent N)
  progress : List (N × N)
  caller : σ
  outcome : Except (StreamError ε) (ConsumeResult N)

def Consumer.start (lastSequence : Option N) (caller : σ) : Consumer N σ ε where
  frame := .empty
  acceptedSequence := lastSequence
  acceptedId := none
  terminal := false
  thrown := none
  caller := caller
  events := []
  progress := []

def Consumer.finish (consumer : Consumer N σ ε) : Consumption N σ ε where
  events := consumer.events
  progress := consumer.progress
  caller := consumer.caller
  outcome := match consumer.thrown with
    | some error => .error error
    | none => .ok ⟨consumer.terminal, consumer.acceptedId, consumer.acceptedSequence⟩

/-- `consumeResponse`; the body arrives in chunks of bytes. -/
def consumeResponse (lastSequence : Option N) (caller : σ) (chunks : List (List ℕ)) :
    Consumption N σ ε :=
  let consumer := Consumer.start lastSequence caller
  if listener.aborted caller then { consumer with thrown := some .abort }.finish
  else (readChunks (readLine numbers listener) Consumer.halted consumer TextDecoder.new []
    chunks).finish

/-- The chunks in which a stream arrives change nothing of what is delivered, of the progress or of
the outcome. -/
theorem consumeResponse_chunks (lastSequence : Option N) (caller : σ) (chunks : List (List ℕ)) :
    consumeResponse numbers listener lastSequence caller chunks =
      consumeResponse numbers listener lastSequence caller [chunks.flatten] := by
  unfold consumeResponse
  have hstart : (Consumer.start lastSequence caller : Consumer N σ ε).halted = false := rfl
  have hchunks := readChunks_flatten (readLine numbers listener) Consumer.halted chunks hstart
  dsimp only
  rw [hchunks]

end AgentEventStream
end AppBuilder.Web
