import AppBuilder.Agent.Types
import AppBuilder.Encoding.Path

/-! The schema of what the model generates, as `agent/schemas.ts` has it. -/
namespace AppBuilder.Agent
open Encoding

def supportedEndings : List Text :=
  [".ts", ".tsx", ".js", ".cjs", ".mjs", ".css", ".json", ".html", ".md"].map String.toList

/-- `/\.(ts|tsx|js|cjs|mjs|css|json|html|md)$/` -/
def supportedExtension (path : Text) : Bool := supportedEndings.any (endsWith path)

def trimmed (value : String) : Option String :=
  let value := trim value.toList
  if 1 ≤ value.length then some (String.ofList value) else none

def safeProjectPathSchema (value : String) : Option String := do
  let value ← trimmed value
  let normalized := slashes value.toList
  if !startsWith normalized (text "/") && !hasDriveRoot normalized && normalized ≠ text ".." &&
      !startsWith normalized (text "../") && !includes normalized (text "/../") &&
      supportedExtension normalized then
    some value
  else none

def dependencyMapSchema (value : List (String × String)) : Option (List (String × String)) :=
  value.mapM fun entry => (trimmed entry.2).map (entry.1, ·)

def textContent (content : String) : Option String :=
  if content.toList.contains NUL then none else some content

def fileOperationSchema : FileOperation → Option FileOperation
  | .create path content => do return .create (← safeProjectPathSchema path) (← textContent content)
  | .update path content => do return .update (← safeProjectPathSchema path) (← textContent content)
  | .delete path => do return .delete (← safeProjectPathSchema path)

def generationResultSchema (value : GenerationResult) : Option GenerationResult := do
  let message ← trimmed value.message
  let operations ← value.operations.mapM fileOperationSchema
  let dependencies ← dependencyMapSchema value.dependencies
  let devDependencies ← dependencyMapSchema value.devDependencies
  return { message, operations, dependencies, devDependencies }

end AppBuilder.Agent
