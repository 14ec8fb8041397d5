import AppBuilder.Branches.BranchService
import AppBuilder.Routes.Access

/-! `routes/project.ts`: the rollback of a branch to an earlier snapshot. -/
namespace AppBuilder.Routes
open Agent Async Store Branches

structure RollbackRequest where
  userId : ObjectId
  projectId : ObjectId
  snapshotId : ObjectId
  branchId : Option ObjectId

/-- The update of the project after its main branch was rolled back. -/
def updateRolledBackProject (ownedProject : Project) (branch : ProjectBranch)
    (snapshotId : ObjectId) : Promise (Option Project) :=
  if branch.name = MAIN_BRANCH_NAME then
    perform (.advanceActiveSnapshot ownedProject._id snapshotId)
  else return some ownedProject

def rollbackTo (ownedProject : Project) (branch : ProjectBranch) (snapshot : ProjectSnapshot) :
    Promise HttpResponse := do
  let bundle ← perform (.readOwnedBundle
    { artifactId := snapshot.artifactId, workspaceId := some snapshot.workspaceId
      projectId := snapshot.projectId, kind := .projectSnapshot })
  let updatedBranch ← setBranchHead ⟨branch._id, branch.headVersion, snapshot._id⟩
  match updatedBranch with
  | none => return errorResponse 409 "Branch head changed; reload and retry"
  | some _ => do
    let project ← updateRolledBackProject ownedProject branch snapshot._id
    match project with
    | none => return errorResponse 404 "Project not found"
    | some project => return ⟨200, .rollback project snapshot bundle⟩

/-- `POST /:id/snapshots/:snapshotId/rollback` -/
def rollback (req : RollbackRequest) : Promise HttpResponse := do
  let ownedProject ← findOwnedWorkspaceProject req.projectId req.userId
  match ownedProject with
  | none => return errorResponse 404 "Project not found"
  | some ownedProject => do
    let branch ← resolveProjectBranch ownedProject req.branchId
    match branch with
    | none => return errorResponse 404 "Branch not found"
    | some branch => do
      let snapshot ← perform (.findSnapshot
        { id := some req.snapshotId, workspaceId := ownedProject.workspaceId
          branchId := some branch._id, projectId := some req.projectId
          userId := some req.userId, notFailed := true })
      match snapshot with
      | none => return errorResponse 404 "Snapshot not found"
      | some snapshot => rollbackTo ownedProject branch snapshot

end AppBuilder.Routes
