import AppBuilder.Workspaces.ProjectRoutes

/-! `routes/chat.ts`, and the dispatch of a request to its route. -/
namespace AppBuilder.Workspaces
open Agent Store Encoding

/-- `s.replace(/\s+/g, ' ')` -/
def collapseSpaces : Text → Text
  | [] => []
  | c :: cs =>
    if isWhiteSpace c then
      if (cs.head?.map isWhiteSpace).getD false then collapseSpaces cs else ' ' :: collapseSpaces cs
    else c :: collapseSpaces cs

def toChatTitle (titleSeed : Text) : Text :=
  let normalized := collapseSpaces (trim titleSeed)
  if Utf16.length normalized ≤ 60 then normalized else Utf16.slice 57 normalized ++ text "..."

/-- `GET /`: the chats of no project and of the caller's projects, the latest first. -/
def getChats (call : Call) : Handler := fun db =>
  (⟨200, .chats ((db.chats.filter fun c => c.userId = call.userId &&
    c.projectId.all (ownedProjectIdsForUser db call.userId).contains).mergeSort
      fun a b => b.updatedAt ≤ a.updatedAt)⟩, db)

/-- `limit` is the number that the query spells. -/
def timelineQuerySchema (limit : Option ℕ) (before : Option Text) : Option (ℕ × Option Text) :=
  let limit := limit.getD 20
  if 1 ≤ limit && limit ≤ 50 && before.all (trim · ≠ []) then some (limit, before.map trim)
  else none

/-- `createdAt: { $lt }`, or the same time and `_id: { $lt }`. -/
def isBefore (boundary : Time × ObjectId) (run : TimelineRun) : Bool :=
  run.createdAt < boundary.1 || (run.createdAt = boundary.1 && run._id < boundary.2)

/-- `.sort({ createdAt: -1, _id: -1 })` -/
def latestFirst (a b : TimelineRun) : Bool :=
  b.createdAt < a.createdAt || (b.createdAt = a.createdAt && b._id ≤ a._id)

def timelineRuns (db : Database) (userId chatId : ObjectId)
    (boundary : Option (Time × ObjectId)) : List TimelineRun :=
  (db.runs.filter fun r => r.userId = userId && r.chatId = some chatId &&
    boundary.all (isBefore · r)).mergeSort latestFirst

/-- The turn of a run, where `snapshotIds` are the results of all runs of the page. -/
def timelineTurn (db : Database) (call : Call) (chat : Chat) (snapshotIds : List ObjectId)
    (run : TimelineRun) : ChatTimelineTurn :=
  buildChatTimelineTurn run
    (db.events.filter fun e => e.userId = call.userId && e.runId = run._id)
    (db.snapshots.find? fun s => s.userId = call.userId && some s.projectId = chat.projectId &&
      snapshotIds.contains s._id && s.sourceRunId = run._id)

def timelinePage (call : Call) (chat : Chat) (limit : ℕ) (boundary : Option (Time × ObjectId))
    (db : Database) : List ChatTimelineTurn × PageInfo :=
  let runs := (timelineRuns db call.userId chat._id boundary).take (limit + 1)
  let hasMore := decide (limit < runs.length)
  let selectedRuns := if hasMore then runs.take limit else runs
  let snapshotIds := selectedRuns.filterMap (·.resultSnapshotId)
  let nextBefore := if hasMore then
      selectedRuns.getLast?.map fun run => encodeTimelineCursor ⟨run.createdAt, toHexString run._id⟩
    else none
  ((selectedRuns.map (timelineTurn db call chat snapshotIds)).reverse, ⟨hasMore, nextBefore⟩)

/-- The boundary of the query, where `none` stands for an invalid cursor. -/
def timelineBoundary (call : Call) : Option Text → Option (Option (Time × ObjectId))
  | none => some none
  | some cursor => do
    let boundary ← decodeTimelineCursor call.runtime cursor
    let id ← castObjectId boundary.id
    return some (boundary.createdAt, id)

/-- `GET /:id/timeline` -/
def getTimeline (call : Call) (id : Text) (limit : Option ℕ) (cursor : Option Text) : Handler :=
  match timelineQuerySchema limit cursor with
  | none => respond validationError
  | some (limit, cursor) => withChat id call.userId fun chat db =>
    match timelineBoundary call cursor with
    | none => (errorResponse 400 "Invalid timeline cursor", db)
    | some boundary =>
      let (turns, pageInfo) := timelinePage call chat limit boundary db
      (⟨200, .timeline chat turns pageInfo⟩, db)

/-- `GET /:id` -/
def getChat (call : Call) (id : Text) : Handler :=
  withChat id call.userId fun chat => respond ⟨200, .chat chat⟩

def newChat (call : Call) (id projectId branchId : ObjectId) (titleSeed : Text) : Chat where
  _id := id
  userId := call.userId
  projectId := some projectId
  branchId := some branchId
  title := toChatTitle titleSeed
  messages := []
  createdAt := call.now
  updatedAt := call.now

/-- `Chat.create(..)`, then the project that lists the chat is saved. -/
def insertChat (call : Call) (project : Project) (branch : ProjectBranch) (titleSeed : Text) :
    Handler := fun db =>
  let chat := newChat call db.nextId project._id branch._id titleSeed
  let db := { db with chats := db.chats ++ [chat], nextId := db.nextId + 1 }
  let chatIds :=
    if project.chatIds.contains chat._id then project.chatIds else project.chatIds ++ [chat._id]
  match saveProject call.now { project with chatIds := chatIds } db with
  | (false, db) => (validationError, db)
  | (true, db) => (⟨201, .chat chat⟩, db)

/-- `POST /` -/
def createChat (call : Call) (projectId : Text) (branchId : Option Text) (titleSeed : Text) :
    Handler :=
  withParam projectId fun _ =>
    match objectIdStringSchema branchId with
    | none => respond validationError
    | some branchId =>
      if trim titleSeed = [] then respond validationError
      else withProject projectId call.userId fun project =>
        withBranch project branchId fun branch => insertChat call project branch titleSeed

/-- `POST /:id/messages` -/
def sendMessage (call : Call) (id content : Text) : Handler :=
  if content = [] then respond validationError
  else withChat id call.userId fun chat db =>
    let chat := { chat with messages := chat.messages ++ [⟨call.uuid, "user", content, call.now⟩] }
    match saveChat call.now chat db with
    | (false, db) => (validationError, db)
    | (true, db) => (⟨200, .chat chat⟩, db)

/-- `PATCH /:id` -/
def patchChat (call : Call) (id title : Text) : Handler :=
  if title = [] then respond validationError
  else withChat id call.userId fun ownedChat db =>
    let db := { db with
      chats := modifyById db.chats ownedChat._id fun c =>
        { c with title := title, updatedAt := call.now } }
    match db.chat? ownedChat._id with
    | none => (errorResponse 404 "Chat not found", db)
    | some chat => (⟨200, .chat chat⟩, db)

/-- `DELETE /:id` -/
def deleteChat (call : Call) (id : Text) : Handler :=
  withChat id call.userId fun ownedChat db =>
    (⟨200, .message "Chat deleted"⟩, { db with chats := deleteById db.chats ownedChat._id })

/-- The requests of both routers; `malformed` is one whose body has the wrong shape. -/
inductive Request where
  | malformed
  | getProjects
  | getProject (id : Text)
  | getSnapshots (id : Text) (branchId : Option Text)
  | getSnapshot (id snapshotId : Text)
  | rollback (id snapshotId : Text) (branchId : Option Text)
  | createProject (name : Text) (description : Option Text) (settings : SettingsBody)
  | getBranches (id : Text)
  | createBranch (id name : Text) (fromSnapshotId : Option Text)
  | patchProject (id : Text) (name description : Option Text) (settings : SettingsBody)
  | attachChat (id chatId : Text)
  | detachChat (id chatId : Text)
  | deleteProject (id : Text)
  | getChats
  | getTimeline (id : Text) (limit : Option ℕ) (cursor : Option Text)
  | getChat (id : Text)
  | createChat (projectId : Text) (branchId : Option Text) (titleSeed : Text)
  | sendMessage (id content : Text)
  | patchChat (id title : Text)
  | deleteChat (id : Text)

def handle (call : Call) : Request → Handler
  | .malformed => respond validationError
  | .getProjects => getProjects call
  | .getProject id => getProject call id
  | .getSnapshots id branchId => getSnapshots call id branchId
  | .getSnapshot id snapshotId => getSnapshot call id snapshotId
  | .rollback id snapshotId branchId => rollback call id snapshotId branchId
  | .createProject name description settings => createProject call name description settings
  | .getBranches id => getBranches call id
  | .createBranch id name fromSnapshotId => createBranch call id name fromSnapshotId
  | .patchProject id name description settings => patchProject call id name description settings
  | .attachChat id chatId => attachChat call id chatId
  | .detachChat id chatId => detachChat call id chatId
  | .deleteProject id => deleteProject call id
  | .getChats => getChats call
  | .getTimeline id limit cursor => getTimeline call id limit cursor
  | .getChat id => getChat call id
  | .createChat projectId branchId titleSeed => createChat call projectId branchId titleSeed
  | .sendMessage id content => sendMessage call id content
  | .patchChat id title => patchChat call id title
  | .deleteChat id => deleteChat call id

/-- The database after a request. -/
def after (call : Call) (request : Request) (db : Database) : Database := (handle call request db).2

end AppBuilder.Workspaces
