import AppBuilder.Workspaces.RouteLaws
import Mathlib.Data.List.Forall2

/-! `migrations/20260726WorkspaceBranches.ts`: the fields that legacy documents lack are filled in,
project by project. -/
namespace AppBuilder.Migrations
open Agent Workspaces

/-- `updateMany(filter, update)` -/
def updateMany {α : Type} (filter : α → Bool) (update : α → α) (docs : List α) : List α :=
  docs.map fun d => if filter d then update d else d

/-- `.sort({ createdAt: 1, _id: 1 })` -/
def earliestFirst (a b : User) : Bool :=
  a.createdAt < b.createdAt || (a.createdAt = b.createdAt && a._id ≤ b._id)

def setWorkspace (now : Time) (workspaceId : ObjectId) (project : Project) (db : Database) :
    Database :=
  if project.workspaceId.isSome then db
  else { db with
    projects := updateMany (fun p => p._id = project._id && p.workspaceId.isNone)
      (fun p => { p with workspaceId := some workspaceId, updatedAt := now }) db.projects }

def fillChats (now : Time) (projectId branchId : ObjectId) (db : Database) : Database :=
  { db with
    chats := updateMany (fun c => c.projectId = some projectId && c.branchId.isNone)
      (fun c => { c with branchId := some branchId, updatedAt := now }) db.chats }

def fillRunWorkspaces (projectId workspaceId : ObjectId) (db : Database) : Database :=
  { db with
    runs := updateMany (fun r => r.projectId = projectId && r.workspaceId.isNone)
      (fun r => { r with workspaceId := some workspaceId }) db.runs }

def fillRunBranches (projectId branchId : ObjectId) (db : Database) : Database :=
  { db with
    runs := updateMany (fun r => r.projectId = projectId && r.branchId.isNone)
      (fun r => { r with branchId := some branchId }) db.runs }

def fillRunVersions (projectId : ObjectId) (db : Database) : Database :=
  { db with
    runs := updateMany (fun r => r.projectId = projectId && r.baseHeadVersion.isNone)
      (fun r => { r with baseHeadVersion := some r.baseSnapshotRevision }) db.runs }

/-- The body of the loop over the projects, as they were read before it. -/
def migrateProject (now : Time) (workspace : Workspace) (db : Database) (project : Project) :
    Database :=
  let db := setWorkspace now workspace._id project db
  let workspaceId := project.workspaceId.getD workspace._id
  let (branch, db) := upsertMainBranch workspaceId project._id project.activeSnapshotId
    project.activeSnapshotRevision db
  let db := fillChats now project._id branch._id db
  let db := fillRunWorkspaces project._id workspaceId db
  let db := fillRunBranches project._id branch._id db
  fillRunVersions project._id db

def migrateMember (owner : User) (workspace : Workspace) (db : Database) (user : User) :
    Database :=
  upsertMember ⟨workspace._id, user._id, if user._id = owner._id then .owner else .member⟩ db

def migrateWorkspaceBranches (now : Time) (db : Database) : Database :=
  match db.users.mergeSort earliestFirst with
  | [] => db
  | owner :: users =>
    let (workspace, db) := upsertDefaultWorkspace owner._id db
    let db := (owner :: users).foldl (migrateMember owner workspace) db
    db.projects.foldl (migrateProject now workspace) db

structure MigrationCounts where
  projectsWithoutWorkspace : ℕ
  chatsWithoutBranch : ℕ
  runsWithoutWorkspace : ℕ
  runsWithoutBranch : ℕ
  runsWithoutBaseHeadVersion : ℕ
  deriving DecidableEq

def migrationCounts (db : Database) : MigrationCounts where
  projectsWithoutWorkspace := db.projects.countP (·.workspaceId.isNone)
  chatsWithoutBranch := db.chats.countP fun c => c.projectId.isSome && c.branchId.isNone
  runsWithoutWorkspace := db.runs.countP (·.workspaceId.isNone)
  runsWithoutBranch := db.runs.countP (·.branchId.isNone)
  runsWithoutBaseHeadVersion := db.runs.countP (·.baseHeadVersion.isNone)

/-- The error reports the counts. -/
def verifyWorkspaceBranchMigration (db : Database) : Except MigrationCounts Unit :=
  let counts := migrationCounts db
  if counts = ⟨0, 0, 0, 0, 0⟩ then .ok () else .error counts

end AppBuilder.Migrations
