import AppBuilder.Web.ChatTimeline
import AppBuilder.Workspaces.TimelinePages

/-! A client reads the timeline of a chat page by page, while new runs are created and shown. -/
namespace AppBuilder.Web
open Agent Store Encoding Workspaces Listing

/-- The page of an answer. -/
def pageOf : Response → Option ChatTimelineResponse
  | ⟨200, .timeline _ turns pageInfo⟩ => some ⟨turns, pageInfo⟩
  | _ => none

/-- `pending` is the answer that is on its way to the client. -/
structure Session where
  db : Database
  client : ChatTimelineState
  pending : Option (Option ChatTimelineResponse)
  merged : ℕ

section Session

variable (call : Call) (id : Text)

/-- The run belongs to the user and to the chat that the path names. -/
def ofChat (run : TimelineRun) : Bool :=
  run.userId = call.userId && (castObjectId id).any fun chatId => run.chatId = some chatId

def runsOfChat (db : Database) : List TimelineRun := db.runs.filter (ofChat call id)

/-- What no update of a run changes. -/
def identity (run : TimelineRun) : ObjectId × Time × ObjectId × Option ObjectId :=
  (run._id, run.createdAt, run.userId, run.chatId)

structure ValidRun (run : TimelineRun) : Prop where
  _id : run._id < 16 ^ 24
  createdAt : run.createdAt ≤ Date.maxTime

/-- The run was created after every run that the chat had at the first request. -/
def Newer (first : Database) (run : TimelineRun) : Prop :=
  ∀ earlier ∈ runsOfChat call id first, earlier.createdAt < run.createdAt

structure IsApiRun (api : ApiRun) (run : TimelineRun) : Prop where
  _id : api._id = toHexString run._id
  createdAt : api.createdAt = some (Date.toISOString run.createdAt)

/-- The sessions that begin with the first page of the chat in the database `first`. -/
inductive Reached (first : Database) : Session → Prop
  | opened {limit : Option ℕ} {client : ChatTimelineState} {page : ChatTimelineResponse}
      (hpage : pageOf (getTimeline call id limit none first).1 = some page) :
      Reached first ⟨first, replaceTimelinePage client page, none, 0⟩
  | inserted {s : Session} {run : TimelineRun} (h : Reached first s) (hvalid : ValidRun run)
      (hfresh : ∀ r ∈ s.db.runs, r._id ≠ run._id)
      (hnewer : ofChat call id run = true → Newer call id first run) :
      Reached first { s with db := { s.db with runs := s.db.runs ++ [run] } }
  | changed {s : Session} {db : Database} (h : Reached first s)
      (hruns : db.runs.map identity = s.db.runs.map identity) : Reached first { s with db := db }
  | shown {s : Session} {run : TimelineRun} {api : ApiRun} {now : Time} (h : Reached first s)
      (hrun : run ∈ s.db.runs) (hchat : ofChat call id run = true)
      (hnewer : Newer call id first run) (hapi : IsApiRun api run) :
      Reached first { s with client := insertTimelineRun call.runtime now s.client api }
  | updated {s : Session} {client : ChatTimelineState} (h : Reached first s)
      (hturns : client.turns.map turnKey = s.client.turns.map turnKey)
      (hpageInfo : client.pageInfo = s.client.pageInfo) : Reached first { s with client := client }
  | asked {s : Session} {later : Call} {limit : Option ℕ} {cursor : Text} (h : Reached first s)
      (huser : later.userId = call.userId) (hruntime : later.runtime = call.runtime)
      (hcursor : s.client.pageInfo.nextBefore = some cursor) :
      Reached first { s with
        client := startTimelineLoading s.client true
        pending := some (pageOf (getTimeline later id limit (some cursor) s.db).1) }
  | failed {s : Session} {error : String} (h : Reached first s) :
      Reached first { s with client := failTimelineLoading s.client error, pending := none }
  | merged {s : Session} {page : ChatTimelineResponse} (h : Reached first s)
      (hpending : s.pending = some (some page)) :
      Reached first { s with
        client := mergeOlderTimelinePage call.runtime s.client page
        pending := none
        merged := s.merged + 1 }

end Session

section Keys

def keyTime (key : RunKey) : Time := (ofLex key).1

def keyId (key : RunKey) : ObjectId := (ofLex key).2

structure ValidKey (key : RunKey) : Prop where
  _id : keyId key < 16 ^ 24
  createdAt : keyTime key ≤ Date.maxTime

theorem keyTime_le {a b : RunKey} (h : a ≤ b) : keyTime a ≤ keyTime b := by
  rcases Prod.Lex.le_iff.mp h with hlt | ⟨heq, -⟩
  · exact hlt.le
  · exact heq.le

theorem shownKey_runKey (run : TimelineRun) :
    shownKey (runKey run) = (toHexString run._id, Date.toISOString run.createdAt) := rfl

variable (runtime : Runtime)

theorem parse_shownKey {key : RunKey} (hkey : ValidKey key) :
    Date.parse runtime.parseDate (shownKey key).2 = some (keyTime key) := by
  have hparse := Date.parse_toISOString runtime.parseDate hkey.createdAt
  simpa only [shownKey, keyTime] using hparse

/-- The comparison of `mergeOlderTimelinePage`, by what the turns show. -/
def shownBefore (a b : Text × Text) : Bool :=
  match Date.parse runtime.parseDate a.2, Date.parse runtime.parseDate b.2 with
  | some s, some t => s ≤ t
  | _, _ => true

theorem shownBefore_shownKey {a b : RunKey} (ha : ValidKey a) (hb : ValidKey b) :
    shownBefore runtime (shownKey a) (shownKey b) = decide (keyTime a ≤ keyTime b) := by
  have hparseA := parse_shownKey runtime ha
  have hparseB := parse_shownKey runtime hb
  rw [shownBefore, hparseA, hparseB]

variable {runtime} {turns : List ChatTimelineTurn} {keys : List RunKey}

theorem pairwise_createdBefore (hturns : turns.map turnKey = keys.map shownKey)
    (hvalid : ∀ key ∈ keys, ValidKey key) (hsorted : keys.Pairwise fun a b => keyTime a ≤ keyTime b) :
    turns.Pairwise fun a b => createdBefore runtime a b = true := by
  have hshown : (keys.map shownKey).Pairwise fun a b => shownBefore runtime a b = true := by
    refine List.pairwise_map.mpr (hsorted.imp_of_mem fun ha hb hab => ?_)
    rw [shownBefore_shownKey runtime (hvalid _ ha) (hvalid _ hb)]
    exact decide_eq_true hab
  rw [← hturns] at hshown
  exact List.pairwise_map.mp hshown

theorem map_turnKey_mergeSort (hturns : turns.map turnKey = keys.map shownKey)
    (hvalid : ∀ key ∈ keys, ValidKey key) :
    (turns.mergeSort (createdBefore runtime)).map turnKey = (byTime keyTime keys).map shownKey := by
  have hturnsSort : (turns.mergeSort (createdBefore runtime)).map turnKey =
      (turns.map turnKey).mergeSort (shownBefore runtime) :=
    List.map_mergeSort fun _ _ _ _ => rfl
  have hkeysSort : (byTime keyTime keys).map shownKey =
      (keys.map shownKey).mergeSort (shownBefore runtime) :=
    List.map_mergeSort fun a ha b hb =>
      (shownBefore_shownKey runtime (hvalid a ha) (hvalid b hb)).symm
  rw [hturnsSort, hkeysSort, hturns]

theorem map_runId (hturns : turns.map turnKey = keys.map shownKey) :
    turns.map (·.runId) = (keys.map keyId).map toHexString := by
  have hfst := congrArg (List.map Prod.fst) hturns
  rw [List.map_map, List.map_map] at hfst
  rw [List.map_map]
  exact hfst

theorem nodup_runId (hturns : turns.map turnKey = keys.map shownKey)
    (hnodup : (keys.map keyId).Nodup) : (turns.map (·.runId)).Nodup := by
  rw [map_runId hturns]
  exact hnodup.map toHexString_injective

/-- Turns with different run ids are set one after another. -/
theorem foldl_setTurn {front turns : List ChatTimelineTurn}
    (hnodup : ((front ++ turns).map (·.runId)).Nodup) :
    turns.foldl setTurn front = front ++ turns := by
  induction turns generalizing front with
  | nil => rw [List.foldl_nil, List.append_nil]
  | cons turn turns ih =>
    have hnew : front.any (·.runId = turn.runId) = false := by
      rw [List.map_append, List.map_cons, List.nodup_append] at hnodup
      refine List.any_eq_false.mpr fun t ht => ?_
      simpa using hnodup.2.2 t.runId (List.mem_map_of_mem ht) turn.runId List.mem_cons_self
    have hset : setTurn front turn = front ++ [turn] := by
      rw [setTurn, hnew]
      rfl
    rw [List.foldl_cons, hset, ih (by simpa using hnodup), List.append_assoc]
    rfl

/-- A page whose turns all come before those of the client is put in front of them. -/
theorem turns_mergeOlderTimelinePage {client : ChatTimelineState} {page : ChatTimelineResponse}
    (hturns : (page.turns ++ client.turns).map turnKey = keys.map shownKey)
    (hvalid : ∀ key ∈ keys, ValidKey key) (hnodup : (keys.map keyId).Nodup)
    (hsorted : keys.Pairwise fun a b => keyTime a ≤ keyTime b) :
    (mergeOlderTimelinePage runtime client page).turns = page.turns ++ client.turns := by
  have hset : (page.turns ++ client.turns).foldl setTurn [] = page.turns ++ client.turns :=
    foldl_setTurn (nodup_runId hturns hnodup)
  rw [mergeOlderTimelinePage, hset]
  exact List.mergeSort_of_pairwise (pairwise_createdBefore hturns hvalid hsorted)

end Keys

section Paging

variable {keys : List RunKey}

/-- What the client is told when it has the first `n` keys. -/
structure PageInfoAt (keys : List RunKey) (n : ℕ) (pageInfo : PageInfo) : Prop where
  hasMore : pageInfo.hasMore = decide (n < keys.length)
  nextBefore : pageInfo.nextBefore =
    if n < keys.length then (keys.take n).getLast?.map cursorOf else none

/-- A page with `limit` keys after the first `n`. -/
structure PageFrom (keys : List RunKey) (n limit : ℕ) (page : ChatTimelineResponse) : Prop where
  turns : page.turns.map turnKey = ((keys.drop n).take limit).reverse.map shownKey
  pageInfo : PageInfoAt keys (n + limit) page.pageInfo

theorem PageFrom.of_isPage {n limit : ℕ} {turns : List ChatTimelineTurn} {pageInfo : PageInfo}
    (hlimit : 0 < limit) (h : IsPage (keys.drop n) limit (turns, pageInfo)) :
    PageFrom keys n limit ⟨turns, pageInfo⟩ := by
  have hlength : limit < (keys.drop n).length ↔ n + limit < keys.length := by
    rw [List.length_drop]
    omega
  refine ⟨h.turns, ⟨by simpa only [hlength] using h.hasMore, ?_⟩⟩
  have hnextBefore := h.nextBefore
  simp only [hlength] at hnextBefore
  rw [hnextBefore]
  by_cases hmore : n + limit < keys.length
  · rw [if_pos hmore, if_pos hmore, List.take_add, List.getLast?_append]
    have hlast : ((keys.drop n).take limit).getLast?.isSome := by
      rw [List.getLast?_isSome, ← List.length_pos_iff, List.length_take, List.length_drop]
      omega
    rw [Option.or_of_isSome hlast]
  · rw [if_neg hmore, if_neg hmore]

/-- The runs of the chat that were there first, and newer ones. -/
structure Grown (call : Call) (id : Text) (keys : List RunKey) (db : Database) : Prop where
  nodup : (db.runs.map (·._id)).Nodup
  valid : ∀ run ∈ db.runs, ValidRun run
  keys : ∃ newer, ((runsOfChat call id db).map runKey).Perm (keys ++ newer) ∧
    ∀ key ∈ newer, ∀ earlier ∈ keys, keyTime earlier < keyTime key

variable {call later : Call} {id : Text} {db : Database}

theorem pageOf_getTimeline {limit : Option ℕ} {cursor : Option Text} {page : ChatTimelineResponse}
    (h : pageOf (getTimeline later id limit cursor db).1 = some page) :
    ∃ n before chatId boundary chat, timelineQuerySchema limit cursor = some (n, before) ∧
      castObjectId id = some chatId ∧ chat._id = chatId ∧
      timelineBoundary later before = some boundary ∧
      timelinePage later chat n boundary db = (page.turns, page.pageInfo) := by
  cases hquery : timelineQuerySchema limit cursor with
  | none =>
    rw [getTimeline, hquery] at h
    cases h
  | some query =>
    obtain ⟨n, before⟩ := query
    cases hid : castObjectId id with
    | none =>
      simp only [getTimeline, hquery, withChat, hid] at h
      cases h
    | some chatId =>
      cases hchat : findOwnedWorkspaceChat db chatId later.userId with
      | none =>
        simp only [getTimeline, hquery, withChat, hid, hchat] at h
        cases h
      | some chat =>
        cases hboundary : timelineBoundary later before with
        | none =>
          simp only [getTimeline, hquery, withChat, hid, hchat, hboundary] at h
          cases h
        | some boundary =>
          rw [getTimeline_eq hquery hid hchat hboundary] at h
          cases h
          exact ⟨n, before, chatId, boundary, chat, rfl, rfl, findOwnedWorkspaceChat_id hchat,
            hboundary, rfl⟩

theorem limit_pos {limit : Option ℕ} {cursor before : Option Text} {n : ℕ}
    (h : timelineQuerySchema limit cursor = some (n, before)) : 0 < n := by
  rw [timelineQuerySchema] at h
  split_ifs at h with hbounds
  cases h
  simp only [Bool.and_eq_true, decide_eq_true_eq] at hbounds
  omega

theorem runsOfChat_eq {chatId : ObjectId} (huser : later.userId = call.userId)
    (hid : castObjectId id = some chatId) :
    chatRuns db later.userId chatId = runsOfChat call id db := by
  rw [chatRuns, runsOfChat, huser]
  refine List.filter_congr fun run _ => ?_
  rw [ofChat, hid, Option.any_some]

/-- The first page has the latest of the runs that are there. -/
theorem first_page {limit : Option ℕ} {page : ChatTimelineResponse}
    (h : pageOf (getTimeline call id limit none db).1 = some page) :
    ∃ n, 0 < n ∧ PageFrom (descending ((runsOfChat call id db).map runKey)) 0 n page := by
  obtain ⟨n, before, chatId, boundary, chat, hquery, hid, rfl, hboundary, hpage⟩ :=
    pageOf_getTimeline h
  have hbefore : before = none := by
    rw [timelineQuerySchema] at hquery
    split_ifs at hquery
    cases hquery
    rfl
  subst hbefore
  cases hboundary
  have hisPage := timelinePage_isPage db none call chat n
  have hall : keysBelow none ((runsOfChat call id db).map runKey) =
      (runsOfChat call id db).map runKey := List.filter_eq_self.mpr fun _ _ => rfl
  rw [hpage, map_runKey_timelineRuns, runsOfChat_eq rfl hid, hall] at hisPage
  exact ⟨n, limit_pos hquery, PageFrom.of_isPage (limit_pos hquery) hisPage⟩

theorem keyId_runKey (runs : List TimelineRun) :
    (runs.map runKey).map keyId = runs.map (·._id) := by
  rw [List.map_map]
  rfl

/-- The keys of the runs that a chat had first. -/
structure Listed (keys : List RunKey) : Prop where
  sorted : keys.Pairwise (· > ·)
  nodup : (keys.map keyId).Nodup
  valid : ∀ key ∈ keys, ValidKey key

theorem listed_runs (hvalid : ∀ run ∈ db.runs, ValidRun run)
    (hnodup : (db.runs.map (·._id)).Nodup) :
    Listed (descending ((runsOfChat call id db).map runKey)) := by
  have hperm := descending_perm ((runsOfChat call id db).map runKey)
  have hids : (((runsOfChat call id db).map runKey).map keyId).Nodup := by
    rw [keyId_runKey]
    exact hnodup.sublist (List.filter_sublist.map _)
  refine ⟨strictly_descending (List.Nodup.of_map _ hids), (hperm.map _).nodup_iff.mpr hids, ?_⟩
  intro key hkey
  obtain ⟨run, hrun, rfl⟩ := List.mem_map.mp (hperm.mem_iff.mp hkey)
  have hrun := hvalid run (List.mem_of_mem_filter hrun)
  exact ⟨hrun._id, hrun.createdAt⟩

/-- A cursor leads to the keys that follow it, whatever runs have been created since. -/
theorem page_after (hlisted : Listed keys) (hgrown : Grown call id keys db)
    (huser : later.userId = call.userId) {n : ℕ} {key : RunKey} (hkey : keys[n]? = some key)
    {limit : Option ℕ} {page : ChatTimelineResponse}
    (h : pageOf (getTimeline later id limit (some (cursorOf key)) db).1 = some page) :
    ∃ size, 0 < size ∧ PageFrom keys (n + 1) size page := by
  obtain ⟨size, before, chatId, boundary, chat, hquery, hid, rfl, hboundary, hpage⟩ :=
    pageOf_getTimeline h
  have hbefore : before = some (cursorOf key) := by
    rw [timelineQuerySchema] at hquery
    split_ifs at hquery
    cases hquery
    exact congrArg some trim_encodeTimelineCursor
  have hvalid := hlisted.valid key (List.mem_of_getElem? hkey)
  rw [hbefore, timelineBoundary_cursorOf later hvalid.createdAt hvalid._id] at hboundary
  cases hboundary
  obtain ⟨newer, hperm, hnewer⟩ := hgrown.keys
  have hsorted : descending keys = keys :=
    descending_eq_of_perm (List.Perm.refl _) (hlisted.sorted.imp le_of_lt)
  have hbelow := descending_below (hlisted.sorted.imp ne_of_gt) hperm
    (fun k hk o ho => Prod.Lex.lt_iff.mpr (.inl (hnewer k hk o ho))) (hsorted.symm ▸ hkey)
  have hisPage := timelinePage_isPage db (some (ofLex key)) later chat size
  have hkeys : keysBelow (some (ofLex key)) ((runsOfChat call id db).map runKey) =
      ((runsOfChat call id db).map runKey).filter (· < key) := rfl
  rw [hpage, map_runKey_timelineRuns, runsOfChat_eq huser hid, hkeys, hbelow, hsorted] at hisPage
  exact ⟨size, limit_pos hquery, PageFrom.of_isPage (limit_pos hquery) hisPage⟩

end Paging

/-! The runs of the database. -/
section Grown

variable {call : Call} {id : Text} {keys : List RunKey} {db : Database}

theorem grown_first (hvalid : ∀ run ∈ db.runs, ValidRun run)
    (hnodup : (db.runs.map (·._id)).Nodup) :
    Grown call id (descending ((runsOfChat call id db).map runKey)) db := by
  refine ⟨hnodup, hvalid, [], ?_, fun key hkey => nomatch hkey⟩
  rw [List.append_nil]
  exact (descending_perm _).symm

theorem Grown.inserted (h : Grown call id keys db) {run : TimelineRun} (hvalid : ValidRun run)
    (hfresh : ∀ r ∈ db.runs, r._id ≠ run._id)
    (hnewer : ofChat call id run = true → ∀ earlier ∈ keys, keyTime earlier < run.createdAt) :
    Grown call id keys { db with runs := db.runs ++ [run] } := by
  obtain ⟨newer, hperm, hlater⟩ := h.keys
  refine ⟨?_, ?_, ?_⟩
  · rw [List.map_append, List.nodup_append]
    refine ⟨h.nodup, List.nodup_singleton _, fun a ha b hb => ?_⟩
    obtain ⟨r, hr, rfl⟩ := List.mem_map.mp ha
    rw [List.mem_singleton.mp hb]
    exact hfresh r hr
  · intro r hr
    rcases List.mem_append.mp hr with hr | hr
    · exact h.valid r hr
    · exact List.mem_singleton.mp hr ▸ hvalid
  · cases hchat : ofChat call id run with
    | false =>
      refine ⟨newer, ?_, hlater⟩
      rwa [runsOfChat, List.filter_append, List.filter_singleton, hchat, cond_false,
        List.append_nil]
    | true =>
      refine ⟨newer ++ [runKey run], ?_, fun key hkey => ?_⟩
      · rw [runsOfChat, List.filter_append, List.filter_singleton, hchat, cond_true,
          List.map_append, ← List.append_assoc]
        exact hperm.append_right _
      · rcases List.mem_append.mp hkey with hkey | hkey
        · exact hlater key hkey
        · exact List.mem_singleton.mp hkey ▸ hnewer hchat

theorem ofChat_eq {run run' : TimelineRun} (h : identity run = identity run') :
    ofChat call id run = ofChat call id run' := by
  simp only [identity, Prod.mk.injEq] at h
  rw [ofChat, ofChat, h.2.2.1, h.2.2.2]

theorem runKey_eq {run run' : TimelineRun} (h : identity run = identity run') :
    runKey run = runKey run' := by
  simp only [identity, Prod.mk.injEq] at h
  rw [runKey, runKey, h.1, h.2.1]

theorem map_runKey_runsOfChat {runs runs' : List TimelineRun}
    (h : List.Forall₂ (fun r r' => identity r = identity r') runs runs') :
    (runs.filter (ofChat call id)).map runKey = (runs'.filter (ofChat call id)).map runKey := by
  induction h with
  | nil => rfl
  | cons hrun _ ih =>
    rw [List.filter_cons, List.filter_cons, ofChat_eq hrun]
    split_ifs
    · rw [List.map_cons, List.map_cons, runKey_eq hrun, ih]
    · exact ih

theorem forall₂_identity {runs runs' : List TimelineRun}
    (h : runs.map identity = runs'.map identity) :
    List.Forall₂ (fun r r' => identity r = identity r') runs runs' := by
  rw [← List.forall₂_eq_eq_eq, List.forall₂_map_left_iff, List.forall₂_map_right_iff] at h
  exact h

theorem Grown.changed (h : Grown call id keys db) {db' : Database}
    (hruns : db'.runs.map identity = db.runs.map identity) : Grown call id keys db' := by
  have hids : db'.runs.map (·._id) = db.runs.map (·._id) := by
    have hfst := congrArg (List.map Prod.fst) hruns
    rwa [List.map_map, List.map_map] at hfst
  refine ⟨hids ▸ h.nodup, fun run hrun => ?_, ?_⟩
  · obtain ⟨old, hold, heq⟩ := List.mem_map.mp (hruns ▸ List.mem_map_of_mem hrun)
    simp only [identity, Prod.mk.injEq] at heq
    exact ⟨heq.1 ▸ (h.valid old hold)._id, heq.2.1 ▸ (h.valid old hold).createdAt⟩
  · rw [runsOfChat, map_runKey_runsOfChat (forall₂_identity hruns)]
    exact h.keys

/-- A newer run of the chat is none of those that were there first. -/
theorem Grown.keyId_ne (h : Grown call id keys db) {run : TimelineRun} (hrun : run ∈ db.runs)
    {earlier : RunKey} (hearlier : earlier ∈ keys) (hnewer : keyTime earlier < run.createdAt) :
    keyId earlier ≠ run._id := by
  obtain ⟨newer, hperm, -⟩ := h.keys
  have hmem := hperm.symm.mem_iff.mp (List.mem_append_left newer hearlier)
  obtain ⟨old, hold, rfl⟩ := List.mem_map.mp hmem
  intro heq
  have hsame : old = run :=
    List.inj_on_of_nodup_map h.nodup (List.mem_of_mem_filter hold) hrun heq
  subst hsame
  exact lt_irrefl _ hnewer

end Grown

/-! What the client shows. -/
section Shown

variable {call : Call} {id : Text} {keys live : List RunKey} {n : ℕ} {s : Session}

/-- The keys of the turns that are live on the client: those of newer runs. -/
structure Live (keys live : List RunKey) : Prop where
  valid : ∀ key ∈ live, ValidKey key
  newer : ∀ key ∈ live, ∀ earlier ∈ keys, keyTime earlier < keyTime key ∧ keyId earlier ≠ keyId key
  nodup : (live.map keyId).Nodup
  sorted : live.Pairwise fun a b => keyTime a ≤ keyTime b

/-- The client has the first `n` keys, and the newer ones that are live. -/
structure Shown (keys live : List RunKey) (n : ℕ) (s : Session) : Prop where
  turns : s.client.turns.map turnKey = ((keys.take n).reverse ++ live).map shownKey
  live : Live keys live
  pageInfo : PageInfoAt keys n s.client.pageInfo
  positive : 0 < n
  merged : s.merged ≤ min n keys.length
  pending : ∀ page, s.pending = some (some page) →
    ∃ limit, 0 < limit ∧ n < keys.length ∧ PageFrom keys n limit page

theorem sorted_shown (hlisted : Listed keys) (hlive : Live keys live) :
    ((keys.take n).reverse ++ live).Pairwise fun a b => keyTime a ≤ keyTime b := by
  refine List.pairwise_append.mpr ⟨?_, hlive.sorted, fun a ha b hb => ?_⟩
  · refine List.pairwise_reverse.mpr ((hlisted.sorted.sublist (List.take_sublist n keys)).imp ?_)
    exact fun h => keyTime_le (le_of_lt h)
  · exact (hlive.newer b hb a (List.mem_of_mem_take (List.mem_reverse.mp ha))).1.le

theorem nodup_shown (hlisted : Listed keys) (hlive : Live keys live) :
    (((keys.take n).reverse ++ live).map keyId).Nodup := by
  rw [List.map_append, List.nodup_append]
  refine ⟨?_, hlive.nodup, fun a ha b hb => ?_⟩
  · rw [List.map_reverse, List.nodup_reverse]
    exact hlisted.nodup.sublist ((List.take_sublist n keys).map _)
  · obtain ⟨k, hk, rfl⟩ := List.mem_map.mp ha
    obtain ⟨k', hk', rfl⟩ := List.mem_map.mp hb
    exact (hlive.newer k' hk' k (List.mem_of_mem_take (List.mem_reverse.mp hk))).2

theorem valid_shown (hlisted : Listed keys) (hlive : Live keys live) :
    ∀ key ∈ (keys.take n).reverse ++ live, ValidKey key := by
  intro key hkey
  rcases List.mem_append.mp hkey with hkey | hkey
  · exact hlisted.valid key (List.mem_of_mem_take (List.mem_reverse.mp hkey))
  · exact hlive.valid key hkey

/-- The turns of a page, followed by those of the client. -/
theorem turns_pending (h : Shown keys live n s) {limit : ℕ} {page : ChatTimelineResponse}
    (hpage : PageFrom keys n limit page) : (page.turns ++ s.client.turns).map turnKey =
      ((keys.take (n + limit)).reverse ++ live).map shownKey := by
  rw [List.map_append, hpage.turns, h.turns, List.take_add, List.reverse_append,
    List.append_assoc, ← List.map_append]

theorem turns_merged (hlisted : Listed keys) (h : Shown keys live n s) {limit : ℕ}
    {page : ChatTimelineResponse} (hpage : PageFrom keys n limit page) :
    (mergeOlderTimelinePage call.runtime s.client page).turns = page.turns ++ s.client.turns :=
  turns_mergeOlderTimelinePage (turns_pending h hpage) (valid_shown hlisted h.live)
    (nodup_shown hlisted h.live) (sorted_shown hlisted h.live)

theorem Shown.merge (hlisted : Listed keys) (h : Shown keys live n s)
    {page : ChatTimelineResponse} (hpending : s.pending = some (some page)) :
    ∃ limit, Shown keys live (n + limit) { s with
      client := mergeOlderTimelinePage call.runtime s.client page
      pending := none
      merged := s.merged + 1 } := by
  obtain ⟨limit, hlimit, hmore, hpage⟩ := h.pending page hpending
  refine ⟨limit, ?_, h.live, hpage.pageInfo, by have := h.positive; omega, ?_, ?_⟩
  · exact (congrArg _ (turns_merged hlisted h hpage)).trans (turns_pending h hpage)
  · have hmerged := h.merged
    simp only
    omega
  · rintro _ ⟨⟩

theorem Live.perm {live' : List RunKey} (h : Live keys live) (hperm : live'.Perm live)
    (hsorted : live'.Pairwise fun a b => keyTime a ≤ keyTime b) : Live keys live' where
  valid key hkey := h.valid key (hperm.mem_iff.mp hkey)
  newer key hkey := h.newer key (hperm.mem_iff.mp hkey)
  nodup := (hperm.map keyId).nodup_iff.mpr h.nodup
  sorted := hsorted

theorem Live.insert (h : Live keys live) {key : RunKey} (hvalid : ValidKey key)
    (hnewer : ∀ earlier ∈ keys, keyTime earlier < keyTime key ∧ keyId earlier ≠ keyId key)
    (hfresh : keyId key ∉ live.map keyId) : Live keys (byTime keyTime (live ++ [key])) := by
  have hperm := byTime_perm keyTime (live ++ [key])
  refine ⟨fun k hk => ?_, fun k hk => ?_, ?_, pairwise_byTime keyTime _⟩
  · rcases List.mem_append.mp (hperm.mem_iff.mp hk) with hk | hk
    · exact h.valid k hk
    · exact List.mem_singleton.mp hk ▸ hvalid
  · rcases List.mem_append.mp (hperm.mem_iff.mp hk) with hk | hk
    · exact h.newer k hk
    · exact List.mem_singleton.mp hk ▸ hnewer
  · rw [(hperm.map keyId).nodup_iff, List.map_append, List.nodup_append]
    refine ⟨h.nodup, List.nodup_singleton _, fun a ha b hb => ?_⟩
    rw [List.mem_singleton.mp hb]
    exact fun hab => hfresh (hab ▸ ha)

theorem Shown.insert (hlisted : Listed keys) (h : Shown keys live n s) {run : TimelineRun}
    {api : ApiRun} {now : Time} (hapi : IsApiRun api run) (hvalid : ValidRun run)
    (hnewer : ∀ earlier ∈ keys, keyTime earlier < run.createdAt ∧ keyId earlier ≠ run._id) :
    ∃ live', Shown keys live' n { s with
      client := insertTimelineRun call.runtime now s.client api } := by
  rw [insertTimelineRun]
  by_cases hthere : s.client.turns.any (·.runId = api._id) = true
  · rw [if_pos hthere]
    exact ⟨live, h⟩
  · rw [if_neg hthere]
    have hkey : ValidKey (runKey run) := ⟨hvalid._id, hvalid.createdAt⟩
    have hturn : turnKey (newTurn now api) = shownKey (runKey run) := by
      rw [turnKey, newTurn, hapi._id, hapi.createdAt, Option.getD_some, shownKey_runKey]
    have hfresh : keyId (runKey run) ∉ live.map keyId := by
      intro hmem
      have hid : api._id ∈ s.client.turns.map (·.runId) := by
        rw [map_runId h.turns, hapi._id]
        refine List.mem_map_of_mem ?_
        rw [List.map_append]
        exact List.mem_append_right _ hmem
      obtain ⟨turn, hturn, heq⟩ := List.mem_map.mp hid
      exact hthere (List.any_eq_true.mpr ⟨turn, hturn, decide_eq_true heq⟩)
    have hturns : (s.client.turns ++ [newTurn now api]).map turnKey =
        (((keys.take n).reverse ++ live) ++ [runKey run]).map shownKey := by
      rw [List.map_append, List.map_append, h.turns, List.map_singleton, List.map_singleton, hturn]
    have hlive := h.live.insert hkey hnewer hfresh
    refine ⟨byTime keyTime (live ++ [runKey run]), ?_, hlive, h.pageInfo, h.positive, h.merged,
      h.pending⟩
    have hsorted := sorted_shown (n := n) hlisted hlive
    rw [map_turnKey_mergeSort hturns, List.append_assoc, byTime_append]
    · exact (List.pairwise_append.mp hsorted).1
    · intro a ha b hb
      exact (List.pairwise_append.mp hsorted).2.2 a ha b
        ((byTime_perm keyTime _).mem_iff.mpr hb)
    · intro key hkey'
      rcases List.mem_append.mp hkey' with hkey' | hkey'
      · exact valid_shown hlisted h.live key hkey'
      · exact List.mem_singleton.mp hkey' ▸ hkey

/-- The cursor that the client asks with is that of the last key it has. -/
theorem Shown.cursor (h : Shown keys live n s) {cursor : Text}
    (hcursor : s.client.pageInfo.nextBefore = some cursor) :
    ∃ key, n < keys.length ∧ keys[n - 1]? = some key ∧ cursor = cursorOf key := by
  rw [h.pageInfo.nextBefore] at hcursor
  split_ifs at hcursor with hmore
  obtain ⟨key, hlast, rfl⟩ := Option.map_eq_some_iff.mp hcursor
  refine ⟨key, hmore, ?_, rfl⟩
  have hpositive := h.positive
  rw [List.getLast?_eq_getElem?, List.length_take, min_eq_left hmore.le, List.getElem?_take,
    if_pos (by omega)] at hlast
  exact hlast

theorem Shown.ask (hlisted : Listed keys) (h : Shown keys live n s)
    (hgrown : Grown call id keys s.db) {later : Call} (huser : later.userId = call.userId)
    {limit : Option ℕ} {cursor : Text} (hcursor : s.client.pageInfo.nextBefore = some cursor) :
    Shown keys live n { s with
      client := startTimelineLoading s.client true
      pending := some (pageOf (getTimeline later id limit (some cursor) s.db).1) } := by
  refine ⟨h.turns, h.live, h.pageInfo, h.positive, h.merged, fun page hpage => ?_⟩
  obtain ⟨key, hmore, hkey, rfl⟩ := h.cursor hcursor
  obtain ⟨size, hsize, hfrom⟩ := page_after hlisted hgrown huser hkey (Option.some.inj hpage)
  rw [Nat.sub_add_cancel h.positive] at hfrom
  exact ⟨size, hsize, hmore, hfrom⟩

end Shown

section Reached

variable {call : Call} {id : Text} {first : Database} {s : Session}

theorem Newer.keyTime_lt {run : TimelineRun} (h : Newer call id first run) :
    ∀ earlier ∈ descending ((runsOfChat call id first).map runKey),
      keyTime earlier < run.createdAt := by
  intro earlier hearlier
  obtain ⟨old, hold, rfl⟩ := List.mem_map.mp ((descending_perm _).mem_iff.mp hearlier)
  exact h old hold

theorem reached_shown (hvalid : ∀ run ∈ first.runs, ValidRun run)
    (hids : (first.runs.map (·._id)).Nodup) (h : Reached call id first s) :
    Grown call id (descending ((runsOfChat call id first).map runKey)) s.db ∧
      ∃ n live, Shown (descending ((runsOfChat call id first).map runKey)) live n s := by
  have hlisted := (@listed_runs call id) hvalid hids
  induction h with
  | opened hpage =>
    obtain ⟨n, hn, hfrom⟩ := first_page hpage
    refine ⟨grown_first hvalid hids, n, [], ?_, ?_, ?_, hn, Nat.zero_le _, ?_⟩
    · have hturns := hfrom.turns
      rwa [List.drop_zero, ← List.append_nil (List.reverse _)] at hturns
    · exact ⟨by simp, by simp, List.nodup_nil, List.Pairwise.nil⟩
    · have hpageInfo := hfrom.pageInfo
      rwa [Nat.zero_add] at hpageInfo
    · rintro _ ⟨⟩
  | inserted _ hrun hfresh hnewer ih =>
    obtain ⟨hgrown, n, live, hshown⟩ := ih
    have hgrown' := hgrown.inserted hrun hfresh fun hchat => (hnewer hchat).keyTime_lt
    exact ⟨hgrown', n, live, hshown.turns, hshown.live, hshown.pageInfo, hshown.positive,
      hshown.merged, hshown.pending⟩
  | changed _ hruns ih =>
    obtain ⟨hgrown, n, live, hshown⟩ := ih
    exact ⟨hgrown.changed hruns, n, live, hshown.turns, hshown.live, hshown.pageInfo,
      hshown.positive, hshown.merged, hshown.pending⟩
  | shown _ hrun hchat hnewer hapi ih =>
    obtain ⟨hgrown, n, live, hshown⟩ := ih
    obtain ⟨live', hshown'⟩ := hshown.insert hlisted hapi (hgrown.valid _ hrun)
      fun earlier hearlier => ⟨hnewer.keyTime_lt earlier hearlier,
        hgrown.keyId_ne hrun hearlier (hnewer.keyTime_lt earlier hearlier)⟩
    exact ⟨hgrown, n, live', hshown'⟩
  | updated _ hturns hpageInfo ih =>
    obtain ⟨hgrown, n, live, hshown⟩ := ih
    exact ⟨hgrown, n, live, hturns.trans hshown.turns, hshown.live,
      hpageInfo.symm ▸ hshown.pageInfo, hshown.positive, hshown.merged, hshown.pending⟩
  | asked _ huser _ hcursor ih =>
    obtain ⟨hgrown, n, live, hshown⟩ := ih
    exact ⟨hgrown, n, live, hshown.ask hlisted hgrown huser hcursor⟩
  | failed _ ih =>
    obtain ⟨hgrown, n, live, hshown⟩ := ih
    refine ⟨hgrown, n, live, hshown.turns, hshown.live, hshown.pageInfo, hshown.positive,
      hshown.merged, ?_⟩
    rintro _ ⟨⟩
  | merged _ hpending ih =>
    obtain ⟨hgrown, n, live, hshown⟩ := ih
    obtain ⟨limit, hshown'⟩ := hshown.merge hlisted hpending
    exact ⟨hgrown, n + limit, live, hshown'⟩

/-- The runs that the chat has, in the order of their creation. -/
def chronological (call : Call) (id : Text) (db : Database) : List TimelineRun :=
  (runsOfChat call id db).mergeSort fun a b => decide (runKey a ≤ runKey b)

def Shows (turn : ChatTimelineTurn) (run : TimelineRun) : Prop :=
  turn.runId = toHexString run._id ∧ turn.userMessage.createdAt = Date.toISOString run.createdAt

theorem map_runKey_chronological :
    (chronological call id first).map runKey =
      (descending ((runsOfChat call id first).map runKey)).reverse := by
  have hsorted : ((chronological call id first).map runKey).Pairwise (· ≤ ·) :=
    List.pairwise_map.mpr (pairwise_byTime runKey (runsOfChat call id first))
  have hdescending : (descending ((runsOfChat call id first).map runKey)).reverse.Pairwise (· ≤ ·) :=
    List.pairwise_reverse.mpr (pairwise_descending _)
  refine List.Perm.eq_of_pairwise (fun _ _ _ _ => le_antisymm) hsorted hdescending ?_
  exact ((List.mergeSort_perm _ _).map runKey).trans
    ((descending_perm _).symm.trans (List.reverse_perm _).symm)

theorem forall₂_shows {turns : List ChatTimelineTurn} {runs : List TimelineRun}
    (h : turns.map turnKey = (runs.map runKey).map shownKey) : List.Forall₂ Shows turns runs := by
  rw [List.map_map, ← List.forall₂_eq_eq_eq, List.forall₂_map_left_iff,
    List.forall₂_map_right_iff] at h
  exact h.imp fun turn run hturn => Prod.mk.inj hturn

/-- Both dates can be read, and the first is not after the second. -/
def ShownInOrder (runtime : Runtime) (a b : ChatTimelineTurn) : Prop :=
  ∃ s t, Date.parse runtime.parseDate a.userMessage.createdAt = some s ∧
    Date.parse runtime.parseDate b.userMessage.createdAt = some t ∧ s ≤ t

theorem shownInOrder_turns {runtime : Runtime} {turns : List ChatTimelineTurn}
    {keys : List RunKey} (hturns : turns.map turnKey = keys.map shownKey)
    (hvalid : ∀ key ∈ keys, ValidKey key)
    (hsorted : keys.Pairwise fun a b => keyTime a ≤ keyTime b) :
    turns.Pairwise (ShownInOrder runtime) := by
  have hshown : (keys.map shownKey).Pairwise fun a b =>
      ∃ s t, Date.parse runtime.parseDate a.2 = some s ∧
        Date.parse runtime.parseDate b.2 = some t ∧ s ≤ t :=
    List.pairwise_map.mpr (hsorted.imp_of_mem fun ha hb hab =>
      ⟨_, _, parse_shownKey runtime (hvalid _ ha), parse_shownKey runtime (hvalid _ hb), hab⟩)
  rw [← hturns] at hshown
  have hturnsInOrder := List.pairwise_map.mp hshown
  exact hturnsInOrder

/-- When nothing is left to read, the client has every run that was there first. -/
theorem complete_of_shown {live : List RunKey} {n : ℕ}
    (hshown : Shown (descending ((runsOfChat call id first).map runKey)) live n s)
    (hdone : s.client.pageInfo.hasMore = false) :
    ∃ older newer, s.client.turns = older ++ newer ∧
      List.Forall₂ Shows older (chronological call id first) ∧
      ∀ turn ∈ newer, ∀ run ∈ chronological call id first, turn.runId ≠ toHexString run._id := by
  have hall : (descending ((runsOfChat call id first).map runKey)).length ≤ n := by
    rw [hshown.pageInfo.hasMore] at hdone
    exact not_lt.mp (of_decide_eq_false hdone)
  have hturns := hshown.turns
  rw [List.take_of_length_le hall, ← map_runKey_chronological, List.map_append,
    List.map_eq_append_iff] at hturns
  obtain ⟨older, newer, hsplit, holder, hnewer⟩ := hturns
  refine ⟨older, newer, hsplit, forall₂_shows holder, fun turn hturn run hrun heq => ?_⟩
  obtain ⟨key, hkey, hkeyTurn⟩ := List.mem_map.mp (hnewer ▸ List.mem_map_of_mem hturn)
  have hmem : runKey run ∈ descending ((runsOfChat call id first).map runKey) := by
    refine (descending_perm _).mem_iff.mpr (List.mem_map_of_mem ?_)
    exact (List.mergeSort_perm _ _).mem_iff.mp hrun
  have hid : toHexString (keyId key) = toHexString (keyId (runKey run)) :=
    (congrArg Prod.fst hkeyTurn).trans heq
  exact (hshown.live.newer key hkey _ hmem).2 (toHexString_injective hid).symm

/-- As long as there is more, the next request is answered with a page that has something new. -/
theorem answered_of_shown (hlisted : Listed (descending ((runsOfChat call id first).map runKey)))
    (hgrown : Grown call id (descending ((runsOfChat call id first).map runKey)) s.db)
    {live : List RunKey} {n : ℕ}
    (hshown : Shown (descending ((runsOfChat call id first).map runKey)) live n s)
    (hmore : s.client.pageInfo.hasMore = true) :
    ∃ cursor, s.client.pageInfo.nextBefore = some cursor ∧
      ∀ later limit chat, later.userId = call.userId → 1 ≤ limit.getD 20 → limit.getD 20 ≤ 50 →
        (castObjectId id).bind (findOwnedWorkspaceChat s.db · later.userId) = some chat →
        ∃ page, pageOf (getTimeline later id limit (some cursor) s.db).1 = some page ∧
          page.turns ≠ [] := by
  have hless := hmore
  rw [hshown.pageInfo.hasMore] at hless
  have hless := of_decide_eq_true hless
  have hpositive := hshown.positive
  obtain ⟨cursor, hcursor⟩ : ∃ cursor, s.client.pageInfo.nextBefore = some cursor := by
    refine Option.isSome_iff_exists.mp ?_
    rw [hshown.pageInfo.nextBefore, if_pos hless, Option.isSome_map, List.getLast?_isSome,
      ← List.length_pos_iff, List.length_take]
    omega
  obtain ⟨key, -, hkey, rfl⟩ := hshown.cursor hcursor
  refine ⟨_, hcursor, fun later limit chat huser hlow hhigh hchat => ?_⟩
  obtain ⟨chatId, hid, hchat⟩ := Option.bind_eq_some_iff.mp hchat
  have hvalid := hlisted.valid key (List.mem_of_getElem? hkey)
  have hanswer := getTimeline_eq (timelineQuerySchema_cursor hlow hhigh) hid hchat
    (timelineBoundary_cursorOf later hvalid.createdAt hvalid._id)
  refine ⟨_, congrArg (fun answer => pageOf answer.1) hanswer, fun hempty => ?_⟩
  obtain ⟨size, hsize, hfrom⟩ := page_after hlisted hgrown huser hkey
    (congrArg (fun answer => pageOf answer.1) hanswer)
  have hlength := congrArg List.length hfrom.turns
  rw [hempty, List.map_nil, List.length_nil, List.length_map, List.length_reverse,
    List.length_take, List.length_drop, Nat.sub_add_cancel hpositive] at hlength
  omega

/-- The pages, read one after another, give every run that the chat had at the first request
exactly once and in the order of creation, and never disturb a turn that is live. -/
theorem timeline_complete (hvalid : ∀ run ∈ first.runs, ValidRun run)
    (hids : (first.runs.map (·._id)).Nodup) (h : Reached call id first s) :
    (s.client.turns.map (·.runId)).Nodup ∧
    s.client.turns.Pairwise (ShownInOrder call.runtime) ∧
    (s.client.pageInfo.hasMore = false →
      ∃ older newer, s.client.turns = older ++ newer ∧
        List.Forall₂ Shows older (chronological call id first) ∧
        ∀ turn ∈ newer, ∀ run ∈ chronological call id first, turn.runId ≠ toHexString run._id) ∧
    (∀ page, s.pending = some (some page) →
      (mergeOlderTimelinePage call.runtime s.client page).turns = page.turns ++ s.client.turns) ∧
    (s.client.pageInfo.hasMore = true →
      ∃ cursor, s.client.pageInfo.nextBefore = some cursor ∧
        ∀ later limit chat, later.userId = call.userId → 1 ≤ limit.getD 20 → limit.getD 20 ≤ 50 →
          (castObjectId id).bind (findOwnedWorkspaceChat s.db · later.userId) = some chat →
          ∃ page, pageOf (getTimeline later id limit (some cursor) s.db).1 = some page ∧
            page.turns ≠ []) ∧
    s.merged ≤ (runsOfChat call id first).length := by
  have hlisted := (@listed_runs call id) hvalid hids
  obtain ⟨hgrown, n, live, hshown⟩ := reached_shown hvalid hids h
  refine ⟨nodup_runId hshown.turns (nodup_shown hlisted hshown.live),
    shownInOrder_turns hshown.turns (valid_shown hlisted hshown.live)
      (sorted_shown hlisted hshown.live), complete_of_shown hshown, fun page hpending => ?_,
    answered_of_shown hlisted hgrown hshown, ?_⟩
  · obtain ⟨limit, -, -, hpage⟩ := hshown.pending page hpending
    exact turns_merged hlisted hshown hpage
  · calc s.merged ≤ (descending ((runsOfChat call id first).map runKey)).length :=
          hshown.merged.trans (min_le_right _ _)
      _ = (runsOfChat call id first).length := by
          rw [(descending_perm _).length_eq, List.length_map]

end Reached

/-- One of the runs that were created in the same millisecond. -/
def tieRun (id : ObjectId) : TimelineRun where
  _id := id
  userId := 1
  workspaceId := none
  projectId := 3
  branchId := none
  chatId := some 5
  prompt := "Add a footer"
  status := .completed
  mode := .edit
  baseSnapshotId := none
  baseSnapshotRevision := 3
  baseHeadVersion := none
  resultSnapshotId := none
  retryOfRunId := none
  validationCandidateId := none
  retryable := false
  attempt := 0
  maxRepairAttempts := 2
  error := none
  usage := none
  startedAt := none
  completedAt := none
  attachments := []
  modelId := none
  modelProvider := none
  model := "standard"
  createdAt := 1785024000000

def tieChat : Workspaces.Chat := ⟨5, 1, none, none, text "Chat", [], 0, 0⟩

def tieDatabase : Database :=
  { Database.empty with
    users := [⟨1, 0⟩]
    chats := [tieChat]
    runs := [tieRun 7, tieRun 8]
    nextId := 9 }

def tieCall : Call where
  userId := 1
  now := 1785024000000
  uuid := []
  defaultModelId := text "standard"
  modelIds := [text "standard"]
  bundleError _ := none
  runtime := ⟨fun _ => none, fun _ => []⟩

/-- The client after the first page, which has room for one of two runs. -/
def tieSession : Session where
  db := tieDatabase
  client := replaceTimelinePage createTimelineState
    ⟨(timelinePage tieCall tieChat 1 none tieDatabase).1,
      (timelinePage tieCall tieChat 1 none tieDatabase).2⟩
  pending := none
  merged := 0

theorem tieSession_reached : Reached tieCall (toHexString 5) tieDatabase tieSession := by
  have hquery : timelineQuerySchema (some 1) none = some (1, none) := by decide
  have hid : castObjectId (toHexString 5) = some 5 := castObjectId_toHexString (by decide)
  have hanswer := (@getTimeline_eq tieCall _ _ _ tieDatabase _ _ tieChat) hquery hid
    (by decide) rfl
  exact Reached.opened (congrArg (fun answer => pageOf answer.1) hanswer)

theorem tieSession_inOrder : (tieSession.client.turns.map (·.runId)).Nodup ∧
    tieSession.client.turns.Pairwise (ShownInOrder tieCall.runtime) ∧
    tieSession.merged ≤ (runsOfChat tieCall (toHexString 5) tieDatabase).length := by
  have hvalid : ∀ run ∈ tieDatabase.runs, ValidRun run := by
    intro run hrun
    rcases List.mem_pair.mp hrun with rfl | rfl
    · exact ⟨by decide, by decide⟩
    · exact ⟨by decide, by decide⟩
  obtain ⟨hnodup, hsorted, -, -, -, hmerged⟩ :=
    timeline_complete hvalid (by decide) tieSession_reached
  exact ⟨hnodup, hsorted, hmerged⟩

end AppBuilder.Web
