import AppBuilder.Store.Laws

/-! What a route answers, and `workspaces/projectAccess.ts`. -/
namespace AppBuilder.Routes
open Agent Async Store

inductive ResponseBody where
  | error (message : String)
  | run (run : Option AgentRun)
  | rollback (project : Project) (snapshot : ProjectSnapshot) (bundle : ProjectArtifactBundle)
  deriving DecidableEq

structure HttpResponse where
  status : ℕ
  body : ResponseBody
  deriving DecidableEq

/-- `res.status(status).json({ error: message })` -/
def errorResponse (status : ℕ) (message : String) : HttpResponse := ⟨status, .error message⟩

def findOwnedWorkspaceProject (projectId userId : ObjectId) : Promise (Option Project) := do
  let project ← perform (.findOwnedProject projectId userId)
  match project.bind fun p => p.workspaceId.map fun workspaceId => (p, workspaceId) with
  | none => return none
  | some (project, workspaceId) => do
    let membership ← perform (.isMember workspaceId userId)
    return if membership then some project else none

end AppBuilder.Routes
