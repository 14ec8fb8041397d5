import AppBuilder.Store.Operations

/-! `branches/branchService.ts`: the main branch of a project and the head of a branch. -/
namespace AppBuilder.Branches
open Agent Async Store

def ensureMainBranch (project : Project) : Promise ProjectBranch :=
  match project.workspaceId with
  | none => .throw { code := .none, message := "Project is missing workspaceId" }
  | some workspaceId => perform (.upsertMainBranch
      { _id := 0
        workspaceId
        projectId := project._id
        name := MAIN_BRANCH_NAME
        status := .active
        headSnapshotId := project.activeSnapshotId
        headVersion := project.activeSnapshotRevision
        createdFromSnapshotId := project.activeSnapshotId })

def resolveProjectBranch (project : Project) (branchId : Option ObjectId) :
    Promise (Option ProjectBranch) :=
  match branchId with
  | some id => perform (.findActiveBranch id project.workspaceId project._id)
  | none => do
    let branch ← ensureMainBranch project
    return some branch

inductive CommitOutcome where
  | advanced
  | alreadyAdvanced
  | conflict
  deriving DecidableEq

structure BranchHeadCommitResult where
  outcome : CommitOutcome
  headVersion : ℕ

def setBranchHead (input : SetBranchHead) : Promise (Option ProjectBranch) :=
  perform (.setBranchHead input)

/-- How a commit whose compare-and-set was refused reads the branch as it is now. -/
def classifyRefusedCommit (input : SetBranchHead) (current : ProjectBranch) :
    BranchHeadCommitResult :=
  if current.headSnapshotId == some input.snapshotId then ⟨.alreadyAdvanced, current.headVersion⟩
  else ⟨.conflict, current.headVersion⟩

def explainRefusedCommit (input : SetBranchHead) : Promise BranchHeadCommitResult := do
  let current ← perform (.findBranch input.branchId .commitBranchHead)
  match current with
  | none => .throw { code := .projectBranchNotFound, message := "Project branch not found" }
  | some current => return classifyRefusedCommit input current

def commitBranchHead (input : SetBranchHead) : Promise BranchHeadCommitResult := do
  let advanced ← setBranchHead input
  match advanced with
  | some branch => return ⟨.advanced, branch.headVersion⟩
  | none => explainRefusedCommit input

end AppBuilder.Branches
