import AppBuilder.Agent.FileOperations
import AppBuilder.Encoding.JsonParse

/-! `agent/dependencies.ts`, and the `package.json` that the server writes into a project. -/
namespace AppBuilder.Agent
open Encoding Store

def requiredDependencies : List (String × String) :=
  [("react", "^18.2.0"), ("react-dom", "^18.2.0")]

def requiredDevDependencies : List (String × String) :=
  [("@types/react", "^18.2.0"), ("@types/react-dom", "^18.2.0"), ("@vitejs/plugin-react", "^4.3.0"),
    ("autoprefixer", "^10.4.20"), ("postcss", "^8.4.49"), ("tailwindcss", "^3.4.17"),
    ("typescript", "^5.4.0"), ("vite", "^5.4.0")]

def serverScripts : List (String × String) :=
  [("dev", "vite"), ("type-check", "tsc --noEmit"), ("build", "tsc && vite build")]

/-- The own properties of an object that is built from these entries. -/
def recordFrom (entries : List (String × String)) : List (String × String) :=
  (fromEntries (entries.map fun entry => (entry.1.toList, entry.2))).map fun member =>
    (String.ofList member.1, member.2)

def sortRecord (localeCompare : String → String → Ordering) (value : List (String × String)) :
    List (String × String) :=
  recordFrom (value.mergeSort fun left right => localeCompare left.1 right.1 != .gt)

def mergeProjectPackageJson (localeCompare : String → String → Ordering)
    (base : Option ProjectSnapshotPackageJson) (generated : GenerationResult) :
    ProjectSnapshotPackageJson where
  dependencies := sortRecord localeCompare (recordFrom
    (requiredDependencies ++ (base.elim [] (·.dependencies)) ++ generated.dependencies))
  devDependencies := sortRecord localeCompare (recordFrom
    (requiredDevDependencies ++ (base.elim [] (·.devDependencies)) ++ generated.devDependencies))
  scripts := serverScripts

def recordValue (record : List (String × String)) : Json Empty :=
  .object (record.map fun entry => (entry.1.toList, .string entry.2.toList))

def packageJsonValue (packageJson : ProjectSnapshotPackageJson) : Json Empty :=
  .object [(text "dependencies", recordValue packageJson.dependencies),
    (text "devDependencies", recordValue packageJson.devDependencies),
    (text "scripts", recordValue packageJson.scripts)]

/-- `JSON.stringify(packageJson, null, 2)` -/
def stringifyPackageJson (packageJson : ProjectSnapshotPackageJson) : String :=
  String.ofList (((packageJsonValue packageJson).pretty nofun 0).getD [])

/-- The functions on files and package data are those of the server. -/
def projectContent (localeCompare : String → String → Ordering) (others : ProjectContent) :
    ProjectContent :=
  { others with
    mergeProjectPackageJson := mergeProjectPackageJson localeCompare
    applyFileOperations := applyFileOperations localeCompare
    stringifyPackageJson := stringifyPackageJson }

/-- Every file named `package.json` has the text of the package data, and there is one. -/
structure HasPackageJson (files : List ProjectFile) (packageJson : ProjectSnapshotPackageJson) :
    Prop where
  exist : ∃ file ∈ files, file.path = "package.json"
  content : ∀ file ∈ files, file.path = "package.json" →
    file.content = stringifyPackageJson packageJson ++ "\n"

section SetProjectFile

variable {filesByPath : List ProjectFile} {file : ProjectFile}

theorem mem_setProjectFile : file ∈ setProjectFile filesByPath file := by
  rw [setProjectFile]
  split_ifs with h
  · obtain ⟨f, hf, hpath⟩ := List.any_eq_true.mp h
    exact List.mem_map.mpr ⟨f, hf, if_pos hpath⟩
  · exact List.mem_append_right _ (List.mem_singleton_self file)

theorem eq_of_mem_setProjectFile {f : ProjectFile} (hf : f ∈ setProjectFile filesByPath file)
    (hpath : f.path = file.path) : f = file := by
  rw [setProjectFile] at hf
  split_ifs at hf with h
  · obtain ⟨old, -, rfl⟩ := List.mem_map.mp hf
    by_cases hold : (old.path == file.path) = true
    · rw [if_pos hold]
    · rw [if_neg hold] at hpath
      exact absurd (beq_iff_eq.mpr hpath) hold
  · rcases List.mem_append.mp hf with hf | hf
    · exact (h (List.any_eq_true.mpr ⟨f, hf, beq_iff_eq.mpr hpath⟩)).elim
    · exact List.mem_singleton.mp hf

end SetProjectFile

theorem normalize_packageJson : normalizeProjectPath "package.json" = .ok "package.json" := by
  decide

variable {localeCompare : String → String → Ordering} {others : ProjectContent}

theorem applyFileOperation_write {generatedByRunId : Option ObjectId}
    {filesByPath files : List ProjectFile} {operation : FileOperation} {path normalized content : String}
    (hoperation : operation = .create path content ∨ operation = .update path content)
    (hpath : normalizeProjectPath path = .ok normalized)
    (h : applyFileOperation generatedByRunId filesByPath operation = .ok files) :
    ∃ language, files = setProjectFile filesByPath
      ⟨normalized, content, language, generatedByRunId⟩ := by
  have hwrite : (inferProjectFileLanguage normalized).bind (fun _ =>
      writeFile generatedByRunId filesByPath normalized content) = .ok files := by
    rw [← h, applyFileOperation]
    rcases hoperation with rfl | rfl
    · rw [FileOperation.path, hpath]
      rfl
    · rw [FileOperation.path, hpath]
      rfl
  cases hlanguage : inferProjectFileLanguage normalized with
  | error e =>
    rw [hlanguage] at hwrite
    cases hwrite
  | ok language =>
    rw [hlanguage, Except.bind, writeFile, hlanguage] at hwrite
    cases htext : assertTextContent normalized content with
    | error e =>
      rw [htext] at hwrite
      cases hwrite
    | ok =>
      rw [htext] at hwrite
      cases hwrite
      exact ⟨language, rfl⟩

theorem applyFileOperations_singleton {files files' : List ProjectFile} {operation : FileOperation}
    {generatedByRunId : Option ObjectId}
    (h : applyFileOperations localeCompare files [operation] generatedByRunId = .ok files') :
    ∃ filesByPath written,
      applyFileOperation generatedByRunId filesByPath operation = .ok written ∧
        files'.Perm written := by
  rw [applyFileOperations] at h
  cases hbase : files.foldlM addBaseFile [] with
  | error e =>
    rw [hbase] at h
    cases h
  | ok filesByPath =>
    simp only [hbase, bind, Except.bind, List.foldlM_cons] at h
    cases hwritten : applyFileOperation generatedByRunId filesByPath operation with
    | error e =>
      rw [hwritten] at h
      cases h
    | ok written =>
      rw [hwritten] at h
      cases h
      exact ⟨filesByPath, written, hwritten, List.mergeSort_perm _ _⟩

/-- Whatever the files were, the server's `package.json` is among them afterwards. -/
theorem hasPackageJson_writeServerPackageJson {files files' : List ProjectFile}
    {packageJson : ProjectSnapshotPackageJson} {generatedByRunId : Option ObjectId}
    (h : writeServerPackageJson (projectContent localeCompare others) files packageJson
      generatedByRunId = .ok files') : HasPackageJson files' packageJson := by
  obtain ⟨filesByPath, written, hwritten, hperm⟩ := applyFileOperations_singleton h
  have hoperation : ∀ b : Bool,
      (if b then FileOperation.update "package.json" (stringifyPackageJson packageJson ++ "\n")
        else .create "package.json" (stringifyPackageJson packageJson ++ "\n")) =
          .create "package.json" (stringifyPackageJson packageJson ++ "\n") ∨
      (if b then FileOperation.update "package.json" (stringifyPackageJson packageJson ++ "\n")
        else .create "package.json" (stringifyPackageJson packageJson ++ "\n")) =
          .update "package.json" (stringifyPackageJson packageJson ++ "\n")
    | true => .inr rfl
    | false => .inl rfl
  obtain ⟨language, rfl⟩ := applyFileOperation_write (hoperation _) normalize_packageJson hwritten
  refine ⟨⟨_, hperm.mem_iff.mpr mem_setProjectFile, rfl⟩, fun file hfile hpath => ?_⟩
  rw [eq_of_mem_setProjectFile (hperm.mem_iff.mp hfile) hpath]

end AppBuilder.Agent
