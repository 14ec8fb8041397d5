import AppBuilder.Agent.FileOperations

/-! The paths of `agent/workspace/createWorkspace.ts`, in the working directory `cwd`. -/
namespace AppBuilder.Agent
open Encoding

variable (cwd : Text)

def resolveFilePath (workspacePath : Text) (filePath : String) : Except OrdinaryError Text :=
  let normalized := slashes filePath.toList
  let target := Path.resolve cwd [workspacePath, normalized]
  let inside := Path.resolve cwd [workspacePath] ++ ['/']
  if Path.isAbsolute normalized ||
      (!startsWith target inside && target ≠ Path.resolve cwd [workspacePath]) then
    .error (plainError ("Project file path cannot escape the workspace: " ++ filePath))
  else .ok target

/-- `/^[a-zA-Z0-9_-]+$/` -/
def validRunId (runId : Text) : Bool :=
  runId ≠ [] && runId.all fun c => isLetter c || ('0' ≤ c && c ≤ '9') || c == '_' || c == '-'

/-- `mkdtemp(path.join(path.resolve(root), runId + '-'))`, which appends `random`. -/
def workspacePath (root runId random : Text) : Text :=
  Path.normalize (Path.resolve cwd [root] ++ '/' :: (runId ++ ['-'])) ++ random

end AppBuilder.Agent
