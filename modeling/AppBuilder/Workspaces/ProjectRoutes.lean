import AppBuilder.Encoding.Utf16
import AppBuilder.Workspaces.ProjectAccess

/-! `routes/project.ts`. -/
namespace AppBuilder.Workspaces
open Agent Store Encoding

/-- What a request meets besides the database: its user, the time, a fresh UUID, the enabled
models, the answer of the artifact service where it cannot read the bundle of a snapshot, and
what JavaScript makes of foreign cursors. -/
structure Call where
  userId : ObjectId
  now : Time
  uuid : Text
  defaultModelId : Text
  modelIds : List Text
  bundleError : ProjectSnapshot → Option Response
  runtime : Runtime

structure SettingsBody where
  framework : Option Framework
  styling : Option Styling
  uiLibrary : Option UiLibrary
  agentModelId : Option Text

def isModelIdChar (c : Char) : Bool :=
  ('a' ≤ c && c ≤ 'z') || c.isDigit || c == '_' || c == '-'

/-- `/^[a-z0-9][a-z0-9_-]{1,63}$/` on the trimmed text. -/
def modelIdSchema (value : Text) : Option Text :=
  match trim value with
  | c :: cs =>
    if (('a' ≤ c && c ≤ 'z') || c.isDigit) && cs.all isModelIdChar && 1 ≤ cs.length &&
        cs.length ≤ 63 then some (c :: cs)
    else none
  | [] => none

def settingsSchema (body : SettingsBody) : Option SettingsBody :=
  match body.agentModelId with
  | none => some body
  | some id => (modelIdSchema id).map fun id => { body with agentModelId := some id }

/-- `objectIdStringSchema` accepts what the database casts. -/
def objectIdStringSchema : Option Text → Option (Option ObjectId)
  | none => some none
  | some id => (castObjectId id).map some

/-- `objectIdParamSchema(..).parse(req.params)` -/
def withParam (id : Text) (next : ObjectId → Handler) : Handler :=
  match castObjectId id with
  | none => respond validationError
  | some id => next id

def modelNotAvailable (modelId : Text) : Response :=
  errorResponse 400 ("Model is not enabled: " ++ String.ofList modelId)

def DEFAULT_WORKSPACE_SLUG : String := "default"

/-- `findOneAndUpdate` with `upsert` on the slug. -/
def upsertDefaultWorkspace (userId : ObjectId) (db : Database) : Workspace × Database :=
  match db.workspaces.find? (·.slug = DEFAULT_WORKSPACE_SLUG) with
  | some workspace => (workspace, db)
  | none =>
    let workspace := ⟨db.nextId, DEFAULT_WORKSPACE_SLUG, "Default Workspace", userId⟩
    (workspace, { db with workspaces := db.workspaces ++ [workspace], nextId := db.nextId + 1 })

def upsertMember (member : WorkspaceMember) (db : Database) : Database :=
  if db.members.any fun m => m.workspaceId = member.workspaceId && m.userId = member.userId then db
  else { db with members := db.members ++ [member] }

def ensureDefaultWorkspaceForUser (userId : ObjectId) (db : Database) : Workspace × Database :=
  let (workspace, db) := upsertDefaultWorkspace userId db
  let role := if workspace.createdByUserId = userId then .owner else .member
  (workspace, upsertMember ⟨workspace._id, userId, role⟩ db)

def newProject (call : Call) (id workspaceId : ObjectId) (name : Text) (description : Option Text)
    (settings : SettingsBody) (modelId : Text) : Project where
  _id := id
  workspaceId := some workspaceId
  userId := call.userId
  name := trim name
  description := description.map trim
  chatIds := []
  activeSnapshotId := none
  activeSnapshotRevision := 0
  settings :=
    { framework := settings.framework.getD .react
      styling := settings.styling.getD .tailwind
      uiLibrary := settings.uiLibrary.getD .shadcn
      agentModelId := some modelId }
  updatedAt := call.now

/-- `POST /` -/
def createProject (call : Call) (name : Text) (description : Option Text)
    (settings : SettingsBody) : Handler := fun db =>
  match settingsSchema settings with
  | none => (validationError, db)
  | some settings =>
    let modelId := settings.agentModelId.getD call.defaultModelId
    if name = [] then (validationError, db)
    else if !call.modelIds.contains modelId then (modelNotAvailable modelId, db)
    else
      let (workspace, db) := ensureDefaultWorkspaceForUser call.userId db
      let project := newProject call db.nextId workspace._id name description settings modelId
      let db := { db with nextId := db.nextId + 1 }
      if project.name = [] then (validationError, db)
      else
        let (_, db) := ensureMainBranch project { db with projects := db.projects ++ [project] }
        (⟨201, .project project⟩, db)

/-- `GET /` -/
def getProjects (call : Call) : Handler := fun db =>
  (⟨200, .projects ((db.projects.filter fun p => p.userId = call.userId &&
    p.workspaceId.any (workspaceIdsForUser db call.userId).contains).mergeSort
      fun a b => b.updatedAt ≤ a.updatedAt)⟩, db)

/-- `GET /:id` -/
def getProject (call : Call) (id : Text) : Handler :=
  withProject id call.userId fun project => respond ⟨200, .project project⟩

/-- `GET /:id/snapshots`: the latest come first. -/
def getSnapshots (call : Call) (id : Text) (branchId : Option Text) : Handler :=
  withParam id fun _ => withProject id call.userId fun project db =>
    match objectIdStringSchema branchId with
    | none => (castError, db)
    | some branchId => withBranch project branchId (fun branch db =>
        (⟨200, .snapshots ((db.snapshots.filter fun s =>
          some s.workspaceId = project.workspaceId && s.projectId = project._id &&
            s.userId = call.userId && s.branchId = branch._id).reverse.take 50)⟩, db)) db

/-- `GET /:id/snapshots/:snapshotId` -/
def getSnapshot (call : Call) (id snapshotId : Text) : Handler :=
  withParam id fun _ => withParam snapshotId fun snapshotId =>
    withProject id call.userId fun project db =>
    match (findById db.snapshots snapshotId).filter fun s =>
        some s.workspaceId = project.workspaceId && s.projectId = project._id &&
          s.userId = call.userId with
    | none => (errorResponse 404 "Snapshot not found", db)
    | some snapshot => ((call.bundleError snapshot).getD ⟨200, .snapshot snapshot⟩, db)

/-- `setBranchHead` -/
def setBranchHead (branchId : ObjectId) (expectedHeadVersion : ℕ) (snapshotId : ObjectId)
    (db : Database) : Option Database :=
  match (db.branch? branchId).filter fun b =>
      b.status = .active && b.headVersion = expectedHeadVersion with
  | none => none
  | some _ => some { db with
      branches := modifyById db.branches branchId fun b =>
        { b with headSnapshotId := some snapshotId, headVersion := b.headVersion + 1 } }

/-- The update of the project after its main branch was rolled back. -/
def activateSnapshot (now : Time) (project : Project) (branch : ProjectBranch)
    (snapshotId : ObjectId) (db : Database) : Database :=
  if branch.name = MAIN_BRANCH_NAME then
    { db with
      projects := modifyById db.projects project._id fun p =>
        { p with
          activeSnapshotId := some snapshotId
          activeSnapshotRevision := p.activeSnapshotRevision + 1
          updatedAt := now } }
  else db

def rollbackTo (call : Call) (project : Project) (branch : ProjectBranch)
    (snapshot : ProjectSnapshot) : Handler := fun db =>
  match call.bundleError snapshot with
  | some response => (response, db)
  | none =>
    match setBranchHead branch._id branch.headVersion snapshot._id db with
    | none => (errorResponse 409 "Branch head changed; reload and retry", db)
    | some db =>
      let db := activateSnapshot call.now project branch snapshot._id db
      match db.project? project._id with
      | none => (errorResponse 404 "Project not found", db)
      | some project => (⟨200, .rollback project snapshot⟩, db)

/-- `POST /:id/snapshots/:snapshotId/rollback` -/
def rollback (call : Call) (id snapshotId : Text) (branchId : Option Text) : Handler :=
  withParam id fun _ => withParam snapshotId fun snapshotId =>
    withProject id call.userId fun project db =>
    match objectIdStringSchema branchId with
    | none => (castError, db)
    | some branchId => withBranch project branchId (fun branch db =>
      match (findById db.snapshots snapshotId).filter fun s =>
          some s.workspaceId = project.workspaceId && s.branchId = branch._id &&
            s.projectId = project._id && s.userId = call.userId &&
            s.validation.status ≠ .failed with
      | none => (errorResponse 404 "Snapshot not found", db)
      | some snapshot => rollbackTo call project branch snapshot db) db

/-- `GET /:id/branches` -/
def getBranches (call : Call) (id : Text) : Handler :=
  withProject id call.userId fun project db =>
    let (_, db) := ensureMainBranch project db
    (⟨200, .branches (db.branches.filter fun b =>
      some b.workspaceId = project.workspaceId && b.projectId = project._id)⟩, db)

/-- The names of a project's branches are unique. -/
def insertBranch (project : Project) (name : String) (snapshotId : Option ObjectId) : Handler :=
  fun db =>
    match project.workspaceId with
    | none => (validationError, db)
    | some workspaceId =>
      if db.branches.any fun b => b.projectId = project._id && b.name = name then
        (errorResponse 409 "Duplicate Error", db)
      else
        let branch : ProjectBranch :=
          { _id := db.nextId
            workspaceId := workspaceId
            projectId := project._id
            name := name
            status := .active
            headSnapshotId := snapshotId
            headVersion := 0
            createdFromSnapshotId := snapshotId }
        (⟨201, .branch branch⟩,
          { db with branches := db.branches ++ [branch], nextId := db.nextId + 1 })

/-- `createProjectBranch`, once it knows the snapshot to start from. -/
def branchFrom (project : Project) (name : String) (sourceSnapshotId : Option ObjectId) :
    Handler := fun db =>
  match sourceSnapshotId with
  | none => insertBranch project name none db
  | some sourceSnapshotId =>
    match (findById db.snapshots sourceSnapshotId).filter fun s =>
        s.projectId = project._id && s.userId = project.userId &&
          s.validation.status ≠ .failed with
    | none => (errorResponse 404 "Snapshot not found", db)
    | some snapshot => insertBranch project name (some snapshot._id) db

def createProjectBranch (project : Project) (name : String) (fromSnapshotId : Option ObjectId) :
    Handler := fun db =>
  match fromSnapshotId with
  | some id => branchFrom project name (some id) db
  | none =>
    match ensureMainBranch project db with
    | (none, db) => (errorResponse 500 "Project is missing workspaceId", db)
    | (some main, db) => branchFrom project name main.headSnapshotId db

/-- `POST /:id/branches` -/
def createBranch (call : Call) (id name : Text) (fromSnapshotId : Option Text) : Handler :=
  match objectIdStringSchema fromSnapshotId with
  | none => respond validationError
  | some fromSnapshotId =>
    if trim name = [] || 80 < Utf16.length (trim name) then respond validationError
    else withProject id call.userId fun project =>
      createProjectBranch project (String.ofList (trim name)) fromSnapshotId

/-- The `$set` of a project update. A name of blanks is trimmed to the empty text. -/
def patchedProject (call : Call) (name : Option Text) (description : Option Text)
    (settings : SettingsBody) (project : Project) : Project :=
  { project with
    name := (name.map trim).getD project.name
    description := (description.map trim).or project.description
    settings :=
      { framework := settings.framework.getD project.settings.framework
        styling := settings.styling.getD project.settings.styling
        uiLibrary := settings.uiLibrary.getD project.settings.uiLibrary
        agentModelId := settings.agentModelId.or project.settings.agentModelId }
    updatedAt := call.now }

/-- `PATCH /:id` -/
def patchProject (call : Call) (id : Text) (name : Option Text) (description : Option Text)
    (settings : SettingsBody) : Handler :=
  match settingsSchema settings with
  | none => respond validationError
  | some settings =>
    if name = some [] then respond validationError
    else if settings.agentModelId.any (!call.modelIds.contains ·) then
      respond (modelNotAvailable (settings.agentModelId.getD []))
    else withProject id call.userId fun ownedProject db =>
      let db := { db with
        projects := modifyById db.projects ownedProject._id
          (patchedProject call name description settings) }
      match db.project? ownedProject._id with
      | none => (errorResponse 404 "Project not found", db)
      | some project => (⟨200, .project project⟩, db)

/-- `Promise.all([project.save(), chat.save()])` -/
def saveLink (call : Call) (project : Project) (chat : Chat) : Handler := fun db =>
  let (projectSaved, db) := saveProject call.now project db
  let (chatSaved, db) := saveChat call.now chat db
  if projectSaved && chatSaved then (⟨200, .project project⟩, db) else (validationError, db)

/-- `POST /:id/chats` -/
def attachChat (call : Call) (id chatId : Text) : Handler :=
  withProject id call.userId fun project db =>
    match castObjectId chatId with
    | none => (castError, db)
    | some chatId =>
      match (db.chat? chatId).filter (·.userId = call.userId) with
      | none => (errorResponse 404 "Chat not found", db)
      | some chat => withBranch project chat.branchId (fun branch =>
          if project.chatIds.contains chat._id then respond ⟨200, .project project⟩
          else saveLink call { project with chatIds := project.chatIds ++ [chat._id] }
            { chat with projectId := some project._id, branchId := some branch._id }) db

/-- `Chat.findByIdAndUpdate(chatId, { $unset: .. })` -/
def unlinkChat (now : Time) (chatId : ObjectId) (db : Database) : Database :=
  { db with chats := modifyById db.chats chatId (unlink now) }

/-- `DELETE /:id/chats/:chatId` -/
def detachChat (call : Call) (id chatId : Text) : Handler :=
  withProject id call.userId fun project db =>
    let project :=
      { project with chatIds := project.chatIds.filter fun id => toHexString id ≠ chatId }
    match saveProject call.now project db with
    | (false, db) => (validationError, db)
    | (true, db) =>
      match castObjectId chatId with
      | none => (castError, db)
      | some chatId => (⟨200, .project project⟩, unlinkChat call.now chatId db)

/-- `Chat.updateMany({ projectId }, { $unset: .. })` -/
def unlinkChats (now : Time) (projectId : ObjectId) (db : Database) : Database :=
  { db with
    chats := db.chats.map fun c => if c.projectId = some projectId then unlink now c else c }

/-- `DELETE /:id` -/
def deleteProject (call : Call) (id : Text) : Handler :=
  withProject id call.userId fun ownedProject db =>
    (⟨200, .message "Project deleted"⟩,
      unlinkChats call.now ownedProject._id
        { db with projects := deleteById db.projects ownedProject._id })

end AppBuilder.Workspaces
