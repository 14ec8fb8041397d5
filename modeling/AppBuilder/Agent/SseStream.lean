import AppBuilder.Encoding.JsonLine

/-! `agent/sseStream.ts`: the frames in which the events of a run are streamed. -/
namespace AppBuilder.Agent
namespace SseStream
open Encoding

structure PublicAgentEvent (N : Type) where
  id : Text
  runId : Text
  sequence : ℕ
  type : Text
  message : Text
  payload : Json N
  createdAt : Text

/-- What a stream of events `E` writes. -/
inductive Write (E : Type) where
  | publicEvent (event : E)
  | heartbeat

def Write.event? {E : Type} : Write E → Option E
  | .publicEvent event => some event
  | .heartbeat => none

def Write.map {E F : Type} (f : E → F) : Write E → Write F
  | .publicEvent event => .publicEvent (f event)
  | .heartbeat => .heartbeat

section Frames

variable {N : Type} (number : ℕ → N) (print : N → Text)

/-- An event has no `payload` where the property is `undefined`. -/
def PublicAgentEvent.toJson (event : PublicAgentEvent N) : Json N :=
  .object [(text "id", .string event.id), (text "runId", .string event.runId),
    (text "sequence", .number (number event.sequence)), (text "type", .string event.type),
    (text "message", .string event.message), (text "payload", event.payload),
    (text "createdAt", .string event.createdAt)]

def PublicAgentEvent.json (event : PublicAgentEvent N) : Text :=
  ((event.toJson number).stringify print).getD []

def toSseFrame (event : PublicAgentEvent N) : Text :=
  text "id: " ++ print (number event.sequence) ++ text "\nevent: " ++ event.type ++
    text "\ndata: " ++ event.json number print ++ text "\n\n"

def Write.frame : Write (PublicAgentEvent N) → Text
  | .publicEvent event => toSseFrame number print event
  | .heartbeat => text ": heartbeat\n\n"

/-- The lines of a frame, up to the blank one. -/
def Write.body : Write (PublicAgentEvent N) → List Text
  | .publicEvent event => [text "id: " ++ print (number event.sequence), text "event: " ++ event.type,
      text "data: " ++ event.json number print]
  | .heartbeat => [text ": heartbeat"]

def Write.lines (w : Write (PublicAgentEvent N)) : List Text := w.body number print ++ [[]]

theorem unlines_lines (w : Write (PublicAgentEvent N)) : unlines (w.lines number print) = w.frame number print := by
  cases w with
  | publicEvent event => simp [Write.lines, Write.body, Write.frame, toSseFrame, unlines, text]
  | heartbeat => rfl

theorem unlines_writes (ws : List (Write (PublicAgentEvent N))) :
    unlines (ws.flatMap (Write.lines number print)) = ws.flatMap (Write.frame number print) := by
  induction ws with
  | nil => rfl
  | cons w ws ih => rw [List.flatMap_cons, List.flatMap_cons, unlines_append, unlines_lines, ih]

variable {number print}

theorem isLine_body {w : Write (PublicAgentEvent N)} (hprint : ∀ n, IsLine (print n))
    (htype : ∀ event ∈ w.event?, IsLine event.type) :
    ∀ line ∈ w.body number print, IsLine line := by
  intro line hline
  cases w with
  | publicEvent event =>
    have hjson : IsLine (event.json number print) :=
      Json.isLine_stringify hprint (event.toJson number) _ rfl
    have hid : IsLine (text "id: ") := isLine_of_all rfl
    have hevent : IsLine (text "event: ") := isLine_of_all rfl
    have hdata : IsLine (text "data: ") := isLine_of_all rfl
    simp only [Write.body, List.mem_cons, List.not_mem_nil, or_false] at hline
    rcases hline with rfl | rfl | rfl
    · exact isLine_append hid (hprint _)
    · exact isLine_append hevent (htype event rfl)
    · exact isLine_append hdata hjson
  | heartbeat =>
    cases List.mem_singleton.mp hline
    exact isLine_of_all rfl

theorem isLine_lines {w : Write (PublicAgentEvent N)} (hprint : ∀ n, IsLine (print n))
    (htype : ∀ event ∈ w.event?, IsLine event.type) :
    ∀ line ∈ w.lines number print, IsLine line := by
  intro line hline
  rcases List.mem_append.mp hline with hline | hline
  · exact isLine_body hprint htype line hline
  · cases List.mem_singleton.mp hline
    exact fun c hc => nomatch hc

theorem body_ne_nil (w : Write (PublicAgentEvent N)) : ∀ line ∈ w.body number print, line ≠ [] := by
  intro line hline
  cases w with
  | publicEvent event =>
    simp only [Write.body, List.mem_cons, List.not_mem_nil, or_false] at hline
    rcases hline with rfl | rfl | rfl
    all_goals exact fun h => nomatch (List.append_eq_nil_iff.mp h).1
  | heartbeat =>
    cases List.mem_singleton.mp hline
    decide

/-- A stream does not start with a byte order mark. -/
theorem head_frames (ws : List (Write (PublicAgentEvent N))) :
    (ws.flatMap (Write.frame number print)).head? ≠ some TextDecoder.byteOrderMark := by
  have hid : some 'i' ≠ some TextDecoder.byteOrderMark := by decide
  have hcolon : some ':' ≠ some TextDecoder.byteOrderMark := by decide
  cases ws with
  | nil => exact fun h => nomatch h
  | cons w ws =>
    cases w with
    | publicEvent event =>
      simp only [List.flatMap_cons, Write.frame, toSseFrame, List.append_assoc]
      exact hid
    | heartbeat => exact hcolon

end Frames

end SseStream
end AppBuilder.Agent
