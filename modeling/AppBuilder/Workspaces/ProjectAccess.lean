import AppBuilder.Workspaces.ChatTimeline

/-! What a route answers, `workspaces/projectAccess.ts`, and how `save` and the branch service act
within one request. -/
namespace AppBuilder.Workspaces
open Agent Store Encoding

inductive Body where
  | error (message : String)
  | message (text : String)
  | project (project : Project)
  | projects (projects : List Project)
  | chat (chat : Chat)
  | chats (chats : List Chat)
  | branch (branch : ProjectBranch)
  | branches (branches : List ProjectBranch)
  | snapshot (snapshot : ProjectSnapshot)
  | snapshots (snapshots : List ProjectSnapshot)
  | rollback (project : Project) (snapshot : ProjectSnapshot)
  | timeline (chat : Chat) (turns : List ChatTimelineTurn) (pageInfo : PageInfo)
  deriving DecidableEq

structure Response where
  status : ℕ
  body : Body
  deriving DecidableEq

def errorResponse (status : ℕ) (message : String) : Response := ⟨status, .error message⟩

/-- The error handler's answer to a schema error of a request or of a document. -/
def validationError : Response := errorResponse 400 "Validation Error"

/-- Its answer to a text that is no id. -/
def castError : Response := errorResponse 400 "Invalid ID"

/-- What a handler does with the database: it answers, and leaves this database behind. -/
abbrev Handler := Database → Response × Database

def respond (response : Response) : Handler := fun db => (response, db)

/-- The routes match the collection's `_id` first: `_id` is unique. -/
def findOwnedWorkspaceProject (db : Database) (projectId userId : ObjectId) : Option Project :=
  match (db.project? projectId).filter (·.userId = userId) with
  | none => none
  | some project =>
    match project.workspaceId with
    | none => none
    | some workspaceId =>
      if db.members.any fun m => m.workspaceId = workspaceId && m.userId = userId then some project
      else none

def workspaceIdsForUser (db : Database) (userId : ObjectId) : List ObjectId :=
  ((db.members.filter (·.userId = userId)).map (·.workspaceId)).dedup

def ownedProjectIdsForUser (db : Database) (userId : ObjectId) : List ObjectId :=
  (db.projects.filter fun p =>
    p.userId = userId && p.workspaceId.any (workspaceIdsForUser db userId).contains).map (·._id)

def findOwnedWorkspaceChat (db : Database) (chatId userId : ObjectId) : Option Chat :=
  match (db.chat? chatId).filter (·.userId = userId) with
  | none => none
  | some chat =>
    match chat.projectId with
    | none => some chat
    | some projectId => (findOwnedWorkspaceProject db projectId userId).map fun _ => chat

/-- The project of a path parameter, or the answer 404. -/
def withProject (id : Text) (userId : ObjectId) (next : Project → Handler) : Handler := fun db =>
  match castObjectId id with
  | none => (castError, db)
  | some id =>
    match findOwnedWorkspaceProject db id userId with
    | none => (errorResponse 404 "Project not found", db)
    | some project => next project db

def withChat (id : Text) (userId : ObjectId) (next : Chat → Handler) : Handler := fun db =>
  match castObjectId id with
  | none => (castError, db)
  | some id =>
    match findOwnedWorkspaceChat db id userId with
    | none => (errorResponse 404 "Chat not found", db)
    | some chat => next chat db

/-- `project.save()` of a changed document: `name` is required and may not be empty. -/
def saveProject (now : Time) (project : Project) (db : Database) : Bool × Database :=
  if project.name = [] then (false, db)
  else (true, { db with
    projects := modifyById db.projects project._id fun _ => { project with updatedAt := now } })

/-- `chat.save()`: `title` is required, and with a `projectId` so is `branchId`. -/
def saveChat (now : Time) (chat : Chat) (db : Database) : Bool × Database :=
  if chat.title = [] || (chat.projectId.isSome && chat.branchId.isNone) then (false, db)
  else (true, { db with
    chats := modifyById db.chats chat._id fun _ => { chat with updatedAt := now } })

/-- `{ $unset: { projectId: 1, branchId: 1 } }` -/
def unlink (now : Time) (chat : Chat) : Chat :=
  { chat with projectId := none, branchId := none, updatedAt := now }

def mainBranch? (db : Database) (projectId : ObjectId) : Option ProjectBranch :=
  db.branches.find? fun b => b.projectId = projectId && b.name = MAIN_BRANCH_NAME

/-- The document that `ensureMainBranch` inserts. -/
def newMainBranch (id workspaceId projectId : ObjectId) (activeSnapshotId : Option ObjectId)
    (activeSnapshotRevision : ℕ) : ProjectBranch where
  _id := id
  workspaceId := workspaceId
  projectId := projectId
  name := MAIN_BRANCH_NAME
  status := .active
  headSnapshotId := activeSnapshotId
  headVersion := activeSnapshotRevision
  createdFromSnapshotId := activeSnapshotId

/-- `findOneAndUpdate` with `upsert` and `$setOnInsert` only. -/
def upsertMainBranch (workspaceId projectId : ObjectId) (activeSnapshotId : Option ObjectId)
    (activeSnapshotRevision : ℕ) (db : Database) : ProjectBranch × Database :=
  match mainBranch? db projectId with
  | some branch => (branch, db)
  | none =>
    let branch :=
      newMainBranch db.nextId workspaceId projectId activeSnapshotId activeSnapshotRevision
    (branch, { db with branches := db.branches ++ [branch], nextId := db.nextId + 1 })

/-- `none`: the project has no workspace, and the service throws. -/
def ensureMainBranch (project : Project) (db : Database) : Option ProjectBranch × Database :=
  match project.workspaceId with
  | none => (none, db)
  | some workspaceId =>
    let (branch, db) := upsertMainBranch workspaceId project._id project.activeSnapshotId
      project.activeSnapshotRevision db
    (some branch, db)

def findActiveBranch (db : Database) (project : Project) (branchId : ObjectId) :
    Option ProjectBranch :=
  (db.branch? branchId).filter fun b =>
    some b.workspaceId = project.workspaceId && b.projectId = project._id && b.status = .active

/-- `resolveProjectBranch`, or the answer 404. -/
def withBranch (project : Project) (branchId : Option ObjectId)
    (next : ProjectBranch → Handler) : Handler := fun db =>
  match branchId with
  | some id =>
    match findActiveBranch db project id with
    | none => (errorResponse 404 "Branch not found", db)
    | some branch => next branch db
  | none =>
    match ensureMainBranch project db with
    | (none, db) => (errorResponse 500 "Project is missing workspaceId", db)
    | (some branch, db) => next branch db

end AppBuilder.Workspaces
