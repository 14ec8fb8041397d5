import AppBuilder.Agent.StreamOrder
import AppBuilder.Web.AppBuilderWorkspace
import AppBuilder.Web.StreamDelivery

/-! A client that follows a run, and the connections of the server that it reads. -/
namespace AppBuilder.Web
namespace AgentEventStream
open Encoding Agent Agent.SseStream Store

section Wire

/-- The texts of ids and dates, and the objects that payloads are. -/
structure WireFormat (N : Type) where
  objectId : ObjectId → Text
  date : Time → Text
  payload : EventPayload → Json N
  payload_object : ∀ p, ∃ members, payload p = .object members
  payload_json : ∀ p, Json.IsJson (payload p)

variable {N : Type} (format : WireFormat N)

def WireFormat.publicEvent (event : SerializedAgentEvent) : PublicAgentEvent N where
  id := format.objectId event.id
  runId := format.objectId event.runId
  sequence := event.sequence
  type := text (eventTypeName event.type)
  message := text event.message
  payload := (event.payload.map format.payload).getD .undefined
  createdAt := format.date event.createdAt

/-- A stored event as it is streamed. -/
def WireFormat.streamed (event : Store.AgentEvent) : PublicAgentEvent N :=
  format.publicEvent (serializeAgentEvent event)

theorem isTerminal_streamed (event : Store.AgentEvent) :
    IsTerminal (format.streamed event) ↔ event.type.isTerminal = true := by
  change text (eventTypeName event.type) ∈ terminalEventTypes ↔ _
  cases event.type <;> decide

theorem publishable_streamed {numbers : Numbers N} {counting : Counting numbers}
    {event : Store.AgentEvent} (h : event.sequence ≤ counting.bound) :
    Publishable counting (format.streamed event) where
  sequence := h
  type := by
    change text (eventTypeName event.type) ∈ publicAgentEventTypes
    cases event.type <;> decide
  payload := by
    change (event.payload.map format.payload).getD .undefined = .undefined ∨
      ∃ members, (event.payload.map format.payload).getD .undefined = .object members ∧
        Json.IsJson ((event.payload.map format.payload).getD .undefined)
    cases event.payload with
    | none => exact .inl rfl
    | some payload =>
      obtain ⟨members, hmembers⟩ := format.payload_object payload
      exact .inr ⟨members, hmembers, format.payload_json payload⟩

theorem log_streamed {numbers : Numbers N} {counting : Counting numbers} {log : List Store.AgentEvent}
    (hlog : Ascending log) (hbound : ∀ event ∈ log, event.sequence ≤ counting.bound) :
    Log counting (log.map format.streamed) := by
  refine ⟨List.pairwise_map.mpr hlog, fun event hmem => ?_⟩
  obtain ⟨stored, hstored, rfl⟩ := List.mem_map.mp hmem
  exact publishable_streamed format (hbound stored hstored)

theorem eventsAfter_streamed (last : Option ℕ) (log : List Store.AgentEvent) :
    eventsAfter last (log.map format.streamed) =
      (log.filter fun event => last.all (· < event.sequence)).map format.streamed :=
  List.filter_map

end Wire

section Run

variable {N σ ε : Type} {numbers : Numbers N} {counting : Counting numbers}
  {format : WireFormat N} {options : StreamOptions N σ ε} {fetchImpl : ℕ → Option N → Round}
  {log : List Store.AgentEvent} {runId userId : ObjectId} {last : Option ℕ} {bytes : List ℕ}

/-- A connection of the server, in a run that has stored some of the first events of `log` by then
and that publishes in the order of the numbers. The bytes are those that arrive of what the handler
writes. -/
structure Connection (counting : Counting numbers) (format : WireFormat N) (request : StreamRequest)
    (log : List Store.AgentEvent) (bytes : List ℕ) (w : World) (s : Session) : Prop where
  numbered : ∀ r, Numbered w r
  users : ∀ event ∈ w.log request.runId, event.userId = request.userId
  reached : Session.Reached request (PublishedInOrder request) w s
  stored : s.log request <+: log
  arrived : bytes <+: Utf8.encode ((s.handler.written.map (Write.map format.publicEvent)).flatMap
    (Write.frame counting.ofNat numbers.print))

theorem filterMap_event_map {E F : Type} (f : E → F) (ws : List (Write E)) :
    (ws.map (Write.map f)).filterMap Write.event? = (ws.filterMap Write.event?).map f := by
  induction ws with
  | nil => rfl
  | cons w ws ih =>
    cases w with
    | publicEvent event => exact congrArg (List.cons (f event)) ih
    | heartbeat => exact ih

theorem filterMap_event_publicEvent {E : Type} (events : List E) :
    (events.map Write.publicEvent).filterMap Write.event? = events := by
  rw [List.filterMap_map]
  exact List.filterMap_some

/-- What a connection of the server serves is what the client relies on. -/
theorem Connection.serves {request : StreamRequest} {w : World} {s : Session}
    (h : Connection counting format request log bytes w s) :
    Serves counting (log.map format.streamed) request.lastEventId bytes := by
  have hprefix := (inOrder_reached (fun _ _ hok => hok) h.numbered h.users h.reached).isPrefix
    (sound_reached h.numbered h.reached)
  have hkept := (h.stored.filter request.after).map serializeAgentEvent
  obtain ⟨rest, hrest⟩ := hprefix.trans hkept
  refine ⟨(s.handler.written ++ rest.map Write.publicEvent).map (Write.map format.publicEvent), ?_, ?_⟩
  · have hevents : (s.handler.written ++ rest.map Write.publicEvent).filterMap Write.event? =
        s.handler.events ++ rest := by
      rw [List.filterMap_append, filterMap_event_publicEvent, Handler.events]
    rw [filterMap_event_map, hevents, hrest, List.map_map, eventsAfter_streamed]
    rfl
  · rw [List.map_append, List.flatMap_append, Utf8.bytes_append]
    exact h.arrived.trans (List.prefix_append _ _)

/-- Every connection is one of the server's, that is asked for the events after the number that the
client sent. -/
def ServedByServer (ε : Type) (counting : Counting numbers) (format : WireFormat N)
    (runId userId : ObjectId) (log : List Store.AgentEvent) (fetchImpl : ℕ → Option N → Round) :
    Prop :=
  ∀ requests (last : Option ℕ), (∀ n ∈ last, n ≤ counting.bound) → ∀ response chunks ending,
    (fetchImpl requests (last.map counting.ofNat)).reply = .response response →
    response.accept = (.ok (chunks, ending) : Except (Failure ε) _) →
    ∃ w s, Connection counting format ⟨runId, userId, last⟩ log chunks.flatten w s

/-- Emitters, handlers and client together: while the calls for a run store and publish, the client
is told the first events of the log after the number that it started with, each once, in order and
none left out, over any number of connections that are cut anywhere. -/
theorem client_follows_run (hlog : Ascending log)
    (hbound : ∀ event ∈ log, event.sequence ≤ counting.bound)
    (hserved : ServedByServer ε counting format runId userId log fetchImpl)
    (hstart : options.lastEventId = last.map counting.ofNat)
    (hlast : ∀ n ∈ last, n ≤ counting.bound) (caller : σ) :
    ∃ told, told <+: log.filter (fun event => last.all (· < event.sequence)) ∧
      (streamAgentEvents numbers options fetchImpl caller).events =
        told.map (fun event => received counting (format.streamed event)) ∧
      (∀ event ∈ told.dropLast, event.type.isTerminal = false) ∧
      Concludes counting last (told.map format.streamed)
        (streamAgentEvents numbers options fetchImpl caller).outcome ∧
      (Calm options fetchImpl →
        ((∃ id, (streamAgentEvents numbers options fetchImpl caller).outcome = .terminal id) ↔
          ∃ event ∈ told, event.type.isTerminal = true)) := by
  have hserves : ServesLog ε counting (log.map format.streamed) fetchImpl := by
    intro requests last' hlast' response chunks ending hreply haccept
    obtain ⟨w, s, hconnection⟩ := hserved requests last' hlast' response chunks ending hreply haccept
    exact hconnection.serves
  obtain ⟨streamed, hdelivers⟩ :=
    streamAgentEvents_told (log_streamed format hlog hbound) hserves hstart hlast caller
  have hprefix := hdelivers.isPrefix
  rw [eventsAfter_streamed, List.prefix_map_iff] at hprefix
  obtain ⟨told, hprefix, rfl⟩ := hprefix
  refine ⟨told, hprefix, ?_, fun event hmem => ?_, hdelivers.outcome, fun hcalm => ?_⟩
  · rw [hdelivers.events, List.map_map]
    rfl
  · have hnot := hdelivers.early (format.streamed event) (by
      rw [← List.map_dropLast]
      exact List.mem_map_of_mem hmem)
    rw [isTerminal_streamed, Bool.not_eq_true] at hnot
    exact hnot
  · rw [hdelivers.terminal_iff hcalm]
    constructor
    · rintro ⟨_, hmem, hterminal⟩
      obtain ⟨event, hevent, rfl⟩ := List.mem_map.mp hmem
      exact ⟨event, hevent, (isTerminal_streamed format event).mp hterminal⟩
    · rintro ⟨event, hevent, hterminal⟩
      exact ⟨format.streamed event, List.mem_map_of_mem hevent,
        (isTerminal_streamed format event).mpr hterminal⟩

end Run

section Sample

def sampleFormat : WireFormat ℚ where
  objectId id := Nat.toDigits 16 id
  date time := Nat.toDigits 10 time
  payload _ := .object []
  payload_object _ := ⟨[], rfl⟩
  payload_json _ := ⟨⟨List.nodup_nil, List.Pairwise.nil⟩, trivial⟩

/-- The first connection ends in the middle of the second event; no other is accepted. -/
def sampleConnections (_ : ℕ) (last : Option ℚ) : Round where
  reply := if last = none then .response ⟨200, text "OK", some (text "text/event-stream"), some
      ([(Utf8.encode ((sampleSession.handler.written.map
        (Write.map sampleFormat.publicEvent)).flatMap
          (Write.frame rationalCounting.ofNat rationalNumbers.print))).take 200], .closed)⟩
    else .rejected
  abortedAsleep := false

theorem sampleConnections_served : ServedByServer Unit rationalCounting sampleFormat 1 2
    (sampleSession.log sampleRequest) sampleConnections := by
  intro requests last _ response chunks ending hreply haccept
  cases last with
  | none =>
    cases hreply
    cases haccept
    refine ⟨.empty, sampleSession, fun _ => rfl, by rintro _ ⟨⟩, sample_reached,
      List.prefix_rfl, ?_⟩
    rw [List.flatten_singleton]
    exact List.take_prefix _ _
  | some n => cases hreply

theorem sample_client_follows_run : ∃ told, told <+: sampleSession.log sampleRequest ∧
    (streamAgentEvents rationalNumbers sampleOptions sampleConnections ()).events =
      told.map (fun event => received rationalCounting (sampleFormat.streamed event)) ∧
    Concludes rationalCounting none (told.map sampleFormat.streamed)
      (streamAgentEvents rationalNumbers sampleOptions sampleConnections ()).outcome := by
  obtain ⟨told, hprefix, hevents, -, hout, -⟩ :=
    @client_follows_run ℚ Unit Unit rationalNumbers rationalCounting sampleFormat sampleOptions
      sampleConnections (sampleSession.log sampleRequest) 1 2 none (by decide) (by decide)
      sampleConnections_served rfl (by rintro _ ⟨⟩) ()
  have hall : (sampleSession.log sampleRequest).filter (fun event =>
      (none : Option ℕ).all (· < event.sequence)) = sampleSession.log sampleRequest :=
    List.filter_eq_self.mpr fun _ _ => rfl
  exact ⟨told, hall ▸ hprefix, hevents, hout⟩

end Sample

end AgentEventStream
end AppBuilder.Web
