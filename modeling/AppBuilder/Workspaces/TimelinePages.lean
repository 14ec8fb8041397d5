import AppBuilder.Listing.Keyset
import AppBuilder.Workspaces.RouteLaws
import Mathlib.Data.Prod.Lex

/-! The pages of `GET /:id/timeline`: what a cursor carries from one page to the next, and which
runs a page holds. -/
namespace AppBuilder.Workspaces
open Agent Store Encoding Listing

section Cursor

theorem trim_of_all {s : Text} (h : ∀ c ∈ s, isWhiteSpace c = false) : trim s = s := by
  refine trim_eq_self_iff.mpr ⟨?_, ?_⟩
  · cases s with
    | nil => rfl
    | cons c cs => exact List.dropWhile_cons_of_neg (by simp [h c List.mem_cons_self])
  · refine List.rdropWhile_eq_self_iff.mpr fun hne => ?_
    simp [h _ (List.getLast_mem hne)]

theorem trim_encode {input : List ℕ} (h : ∀ byte ∈ input, byte < 256) :
    trim (Base64.encode input) = Base64.encode input := by
  have hall : ∀ i : Fin 64, isWhiteSpace (Base64.digit i.val) = false := by decide +kernel
  refine trim_of_all fun c hc => ?_
  obtain ⟨n, hn, rfl⟩ := List.mem_map.mp hc
  exact hall ⟨n, Base64.sextets_lt input h n hn⟩

variable {boundary : TimelineCursorBoundary}

theorem isJson_cursorValue : (cursorValue boundary).IsJson := by
  have hnodup : [text "createdAt", text "id"].Nodup := by decide
  have hsorted : [text "createdAt", text "id"].Pairwise fun a b => keyBefore a b = true := by decide
  exact ⟨⟨hnodup, (List.pairwise_map (R := fun a b => keyBefore a b = true)).mp hsorted⟩,
    trivial, trivial, trivial⟩

theorem exists_cursorText : ∃ s, (cursorValue boundary).stringify Json.numberLiterals.print = some s ∧
    encodeTimelineCursor boundary = Base64.encode (Utf8.encode s) := by
  obtain ⟨s, hs⟩ := Json.stringify_isSome Json.numberLiterals isJson_cursorValue
  exact ⟨s, hs, by rw [encodeTimelineCursor, hs]; rfl⟩

theorem decodeTimelineCursor_eq {runtime : Runtime} {cursor id : Text}
    {parsed createdAt : Json Json.NumberLiteral} {t : Time}
    (hparse : Json.parse Json.numberLiterals (Utf8.decode (Base64.decode cursor)) = some parsed)
    (hcreatedAt : property parsed (text "createdAt") = some createdAt)
    (hdate : dateOf runtime createdAt = some t)
    (hstring : property parsed (text "id") = some (.string id)) (hid : (castObjectId id).isSome) :
    decodeTimelineCursor runtime cursor = some ⟨t, id⟩ := by
  rw [decodeTimelineCursor, hparse, Option.bind_eq_bind, Option.bind_some, hcreatedAt, hstring]
  simp only [Option.bind_eq_bind, Option.bind_some, hdate, hid, if_true]

/-- The cursor carries the boundary through the query of the next request. -/
theorem decode_encodeTimelineCursor (runtime : Runtime) (htime : boundary.createdAt ≤ Date.maxTime)
    (hid : (castObjectId boundary.id).isSome) :
    decodeTimelineCursor runtime (encodeTimelineCursor boundary) = some boundary := by
  obtain ⟨s, hs, hencode⟩ := @exists_cursorText boundary
  have hparse : Json.parse Json.numberLiterals (Utf8.decode (Base64.decode (encodeTimelineCursor
      boundary))) = some (cursorValue boundary) := by
    rw [hencode, Base64.decode_encode (Utf8.encode_lt s), Utf8.decode_encode]
    exact Json.parse_stringify _ isJson_cursorValue hs
  exact decodeTimelineCursor_eq hparse rfl (Date.parse_toISOString _ htime) rfl hid

theorem trim_encodeTimelineCursor :
    trim (encodeTimelineCursor boundary) = encodeTimelineCursor boundary := by
  obtain ⟨s, -, hencode⟩ := @exists_cursorText boundary
  rw [hencode, trim_encode (Utf8.encode_lt s)]

theorem encodeTimelineCursor_ne_nil : encodeTimelineCursor boundary ≠ [] := by
  obtain ⟨s, hs, hencode⟩ := @exists_cursorText boundary
  intro hnil
  have hdecode := Base64.decode_encode (Utf8.encode_lt s)
  rw [← hencode, hnil] at hdecode
  have hs' : s = [] := by
    rw [← Utf8.decode_encode s, ← hdecode]
    rfl
  have hparse := Json.parse_stringify _ isJson_cursorValue hs
  rw [hs'] at hparse
  cases hparse

theorem timelineQuerySchema_cursor {limit : Option ℕ} (hlow : 1 ≤ limit.getD 20)
    (hhigh : limit.getD 20 ≤ 50) : timelineQuerySchema limit (some (encodeTimelineCursor boundary)) =
      some (limit.getD 20, some (encodeTimelineCursor boundary)) := by
  have hbefore : (some (encodeTimelineCursor boundary)).all (trim · ≠ []) = true := by
    rw [Option.all_some, trim_encodeTimelineCursor]
    exact decide_eq_true encodeTimelineCursor_ne_nil
  have htrim : (some (encodeTimelineCursor boundary)).map trim =
      some (encodeTimelineCursor boundary) := congrArg some trim_encodeTimelineCursor
  rw [timelineQuerySchema, hbefore, htrim]
  exact if_pos (by simp only [hlow, hhigh, decide_true, Bool.and_self])

end Cursor

/-- The order in which the runs of a chat were created, where the id breaks a tie. -/
abbrev RunKey := Time ×ₗ ObjectId

def runKey (run : TimelineRun) : RunKey := toLex (run.createdAt, run._id)

theorem latestFirst_eq (a b : TimelineRun) :
    latestFirst a b = decide (runKey b ≤ runKey a) := by
  rw [Bool.eq_iff_iff, decide_eq_true_iff, runKey, runKey, Prod.Lex.toLex_le_toLex]
  simp [latestFirst]

theorem isBefore_eq (boundary : Time × ObjectId) (run : TimelineRun) :
    isBefore boundary run = decide (runKey run < toLex boundary) := by
  rw [Bool.eq_iff_iff, decide_eq_true_iff, runKey, Prod.Lex.toLex_lt_toLex]
  simp [isBefore]

/-- The keys below the boundary, or all of them. -/
def keysBelow (boundary : Option (Time × ObjectId)) (keys : List RunKey) : List RunKey :=
  keys.filter fun key => boundary.all fun b => key < toLex b

def chatRuns (db : Database) (userId chatId : ObjectId) : List TimelineRun :=
  db.runs.filter fun r => r.userId = userId && r.chatId = some chatId

section Page

variable (db : Database) (userId chatId : ObjectId) (boundary : Option (Time × ObjectId))

theorem map_runKey_timelineRuns : (timelineRuns db userId chatId boundary).map runKey =
    descending (keysBelow boundary ((chatRuns db userId chatId).map runKey)) := by
  have hkeys : keysBelow boundary ((chatRuns db userId chatId).map runKey) =
      (db.runs.filter fun r => r.userId = userId && r.chatId = some chatId &&
        boundary.all (isBefore · r)).map runKey := by
    rw [keysBelow, chatRuns, List.filter_map, List.filter_filter]
    refine congrArg (List.map runKey) (List.filter_congr fun run _ => ?_)
    rw [Bool.and_comm]
    refine congrArg _ ?_
    cases boundary with
    | none => rfl
    | some b => exact (isBefore_eq b run).symm
  rw [timelineRuns, hkeys, descending]
  exact List.map_mergeSort fun a _ b _ => latestFirst_eq a b

/-- The run id and the time that a turn shows. -/
def turnKey (turn : ChatTimelineTurn) : Text × Text := (turn.runId, turn.userMessage.createdAt)

def shownKey (key : RunKey) : Text × Text :=
  (toHexString (ofLex key).2, Date.toISOString (ofLex key).1)

def cursorOf (key : RunKey) : Text :=
  encodeTimelineCursor ⟨(ofLex key).1, toHexString (ofLex key).2⟩

/-- The page with the first `limit` of the keys that are left. -/
structure IsPage (keys : List RunKey) (limit : ℕ) (page : List ChatTimelineTurn × PageInfo) :
    Prop where
  turns : page.1.map turnKey = (keys.take limit).reverse.map shownKey
  hasMore : page.2.hasMore = decide (limit < keys.length)
  nextBefore : page.2.nextBefore =
    if limit < keys.length then (keys.take limit).getLast?.map cursorOf else none

theorem timelinePage_isPage (call : Call) (chat : Chat) (limit : ℕ) :
    IsPage ((timelineRuns db call.userId chat._id boundary).map runKey) limit
      (timelinePage call chat limit boundary db) := by
  obtain ⟨runs, hruns⟩ : ∃ runs, runs = timelineRuns db call.userId chat._id boundary := ⟨_, rfl⟩
  have hmore : (limit < (runs.take (limit + 1)).length) ↔ limit < runs.length := by
    rw [List.length_take]
    omega
  have hselected : (if decide (limit < (runs.take (limit + 1)).length) then
      (runs.take (limit + 1)).take limit else runs.take (limit + 1)) = runs.take limit := by
    by_cases h : limit < runs.length
    · rw [if_pos (by simpa [hmore] using h), List.take_take, min_eq_left (by omega)]
    · rw [if_neg (by simpa [hmore] using h), List.take_of_length_le (by omega),
        List.take_of_length_le (by omega)]
  simp only [timelinePage, ← hruns, hselected]
  refine ⟨?_, ?_, ?_⟩
  · rw [List.map_reverse, List.map_map, ← List.map_take, ← List.map_reverse, ← List.map_reverse,
      List.map_map]
    rfl
  · simp only [hmore, List.length_map]
  · simp only [hmore, List.length_map, decide_eq_true_eq, ← List.map_take, List.getLast?_map,
      Option.map_map]
    rfl

end Page

theorem timelineBoundary_cursorOf (call : Call) {key : RunKey}
    (htime : (ofLex key).1 ≤ Date.maxTime) (hid : (ofLex key).2 < 16 ^ 24) :
    timelineBoundary call (some (cursorOf key)) = some (some (ofLex key)) := by
  have hcast := castObjectId_toHexString hid
  have hdecode := (@decode_encodeTimelineCursor ⟨(ofLex key).1, toHexString (ofLex key).2⟩)
    call.runtime htime (by rw [hcast]; rfl)
  rw [timelineBoundary, cursorOf, hdecode, Option.bind_eq_bind, Option.bind_some, hcast]
  rfl

/-- A request for a page, with the parameters that it asks for. -/
theorem getTimeline_eq {call : Call} {id : Text} {limit : Option ℕ} {cursor : Option Text}
    {db : Database} {n : ℕ} {chatId : ObjectId} {chat : Chat} {boundary : Option (Time × ObjectId)}
    {before : Option Text} (hquery : timelineQuerySchema limit cursor = some (n, before))
    (hid : castObjectId id = some chatId)
    (hchat : findOwnedWorkspaceChat db chatId call.userId = some chat)
    (hboundary : timelineBoundary call before = some boundary) :
    getTimeline call id limit cursor db =
      (⟨200, .timeline chat (timelinePage call chat n boundary db).1
        (timelinePage call chat n boundary db).2⟩, db) := by
  simp only [getTimeline, hquery, withChat, hid, hchat, hboundary]

end AppBuilder.Workspaces
