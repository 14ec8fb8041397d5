import AppBuilder.Agent.Generation
import AppBuilder.Agent.Schemas

/-! `agent/fileOperations.ts`. `localeCompare` is the order of the locale. -/
namespace AppBuilder.Agent
open Encoding

def plainError (message : String) : OrdinaryError := ⟨{ code := .none, message }, by simp⟩

def supportedExtensions : List (String × ProjectFileLanguage) :=
  [(".ts", .ts), (".tsx", .tsx), (".js", .js), (".cjs", .js), (".mjs", .js), (".css", .css),
    (".json", .json), (".html", .html), (".md", .md)]

def requiredTemplateFiles : List String :=
  ["package.json", "index.html", "postcss.config.cjs", "tailwind.config.js", "src/main.tsx"]

def inferProjectFileLanguage (filePath : String) : Except OrdinaryError ProjectFileLanguage :=
  match supportedExtensions.find? fun entry => entry.1.toList == Path.extname filePath.toList with
  | some entry => .ok entry.2
  | none => .error (plainError ("Unsupported file extension: " ++ filePath))

def normalizeProjectPath (rawPath : String) : Except OrdinaryError String :=
  if Path.isAbsolute rawPath.toList || Path.win32IsAbsolute rawPath.toList then
    .error (plainError ("Project file path must be a relative path: " ++ rawPath))
  else
    let normalized := Path.normalize (slashes rawPath.toList)
    if normalized = text "." || startsWith normalized (text "../") || normalized = text ".." then
      .error (plainError ("Project file path cannot escape the project root: " ++ rawPath))
    else .ok (String.ofList normalized)

def assertTextContent (filePath content : String) : Except OrdinaryError Unit :=
  if content.toList.contains NUL then
    .error (plainError ("Project file content cannot be binary: " ++ filePath))
  else .ok ()

/-- `Map.set`: an entry that exists keeps its place. -/
def setProjectFile (filesByPath : List ProjectFile) (file : ProjectFile) : List ProjectFile :=
  if filesByPath.any (·.path == file.path) then
    filesByPath.map fun f => if f.path == file.path then file else f
  else filesByPath ++ [file]

def addBaseFile (filesByPath : List ProjectFile) (file : ProjectFile) :
    Except OrdinaryError (List ProjectFile) := do
  let normalized ← normalizeProjectPath file.path
  let language ← inferProjectFileLanguage normalized
  return setProjectFile filesByPath { file with path := normalized, language }

def writeFile (generatedByRunId : Option ObjectId) (filesByPath : List ProjectFile)
    (normalized content : String) : Except OrdinaryError (List ProjectFile) := do
  assertTextContent normalized content
  let language ← inferProjectFileLanguage normalized
  return setProjectFile filesByPath ⟨normalized, content, language, generatedByRunId⟩

def applyFileOperation (generatedByRunId : Option ObjectId) (filesByPath : List ProjectFile)
    (operation : FileOperation) : Except OrdinaryError (List ProjectFile) := do
  let normalized ← normalizeProjectPath operation.path
  let _ ← inferProjectFileLanguage normalized
  match operation with
  | .delete _ =>
    if requiredTemplateFiles.contains normalized then
      .error (plainError ("Cannot delete required file: " ++ normalized))
    else return filesByPath.filter (·.path != normalized)
  | .create _ content | .update _ content =>
    writeFile generatedByRunId filesByPath normalized content

def applyFileOperations (localeCompare : String → String → Ordering)
    (baseFiles : List ProjectFile) (operations : List FileOperation)
    (generatedByRunId : Option ObjectId) : Except OrdinaryError (List ProjectFile) := do
  let filesByPath ← baseFiles.foldlM addBaseFile []
  let filesByPath ← operations.foldlM (applyFileOperation generatedByRunId) filesByPath
  return filesByPath.mergeSort fun left right => localeCompare left.path right.path != .gt

end AppBuilder.Agent
