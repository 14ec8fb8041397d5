import AppBuilder.Store.Operations

/-! `agent/eventBus.ts`: an event is numbered, stored and then published. -/
namespace AppBuilder.Agent
open Async Store

structure EmitAgentEventInput where
  runId : ObjectId
  userId : ObjectId
  projectId : ObjectId
  type : AgentEventType
  message : String
  payload : Option EventPayload := none

def serializeAgentEvent (event : AgentEvent) : SerializedAgentEvent where
  id := event._id
  runId := event.runId
  sequence := event.sequence
  type := event.type
  message := event.message
  payload := event.payload
  createdAt := event.createdAt

def nextSequence (latestEvent : Option ℕ) : ℕ :=
  match latestEvent with
  | some sequence => sequence + 1
  | none => 1

def getNextSequence (runId : ObjectId) : Promise ℕ := do
  let latestEvent ← perform (.latestSequence runId)
  return nextSequence latestEvent

/-- The document that `emitAgentEvent` inserts; `_id` and `createdAt` are set on insertion. -/
def EmitAgentEventInput.document (input : EmitAgentEventInput) (sequence : ℕ) : AgentEvent where
  _id := 0
  runId := input.runId
  userId := input.userId
  projectId := input.projectId
  type := input.type
  sequence := sequence
  message := input.message
  payload := input.payload
  createdAt := 0

def emitAgentEvent (input : EmitAgentEventInput) : Promise SerializedAgentEvent := do
  let sequence ← getNextSequence input.runId
  let event ← perform (.createEvent (input.document sequence))
  let serialized := serializeAgentEvent event
  perform (.publish input.runId serialized)
  return serialized

end AppBuilder.Agent
