import AppBuilder.Agent.StylingCapabilities
import AppBuilder.Encoding.RegexReplace
import AppBuilder.Web.AppBuilderWorkspace

/-! `lib/snapshotPreview.ts` and `lib/stylingCapabilities.ts` of the web client: the files that a
preview shows, and how the client finds out how they are styled. -/
namespace AppBuilder.Web
open Agent Agent.Styling Encoding

section Styling

/-- The files of a preview, each with its content. -/
abbrev PreviewFiles : Type := List (Text × Units)

def tailwindConfig : String :=
  "/** @type \x7bimport('tailwindcss').Config\x7d */\n" ++
  "module.exports = \x7b\n" ++
  "  content: ['./index.html', './src/**/*.\x7bjs,ts,jsx,tsx\x7d'],\n" ++
  "  theme: \x7b extend: \x7b\x7d \x7d,\n" ++
  "  plugins: []\n" ++
  "\x7d;\n"

def postcssConfig : String :=
  "module.exports = \x7b plugins: \x7b tailwindcss: \x7b\x7d, autoprefixer: \x7b\x7d \x7d \x7d;\n"

structure PreviewStyling where
  files : PreviewFiles
  dependencies : List (String × String)
  capabilities : List StylingCapability

/-- `Boolean(record[name])` -/
def declares (record : List (String × String)) (name : String) : Bool :=
  (valueAt record name).any (· ≠ "")

/-- `/\/tailwind\.config\.(?:js|cjs|mjs|ts)$/` -/
def namesTailwindConfig (path : Text) : Bool :=
  tailwindConfigNames.any fun name => endsWith path ('/' :: name)

/-- A file that is added unless there is a file with such a name. -/
def addConfig (entries : PreviewFiles) (name path content : String) (files : PreviewFiles) :
    PreviewFiles :=
  if !entries.any fun entry => includes entry.1 (text name) then
    defineMember files (text path) (unitsOf content)
  else files

def augmentPreviewStyling (sourceFiles : PreviewFiles) (packageJson : ProjectSnapshotPackageJson) :
    PreviewStyling :=
  let declaredPackages := recordFrom (packageJson.dependencies ++ packageJson.devDependencies)
  let hasCss := sourceFiles.any fun entry => endsWith entry.1 (text ".css")
  let hasTailwind := declares declaredPackages "tailwindcss" ||
    sourceFiles.any fun entry => namesTailwindConfig entry.1 || hasDirective entry.2
  let hasModules := sourceFiles.any fun entry => endsWith entry.1 (text ".module.css")
  let hasStyled := declares declaredPackages "styled-components" ||
    sourceFiles.any fun entry => importsStyled entry.2
  { files :=
      if hasTailwind then
        addConfig sourceFiles "/postcss.config." "/postcss.config.cjs" postcssConfig
          (addConfig sourceFiles "/tailwind.config." "/tailwind.config.js" tailwindConfig
            sourceFiles)
      else sourceFiles
    dependencies :=
      if hasTailwind then
        recordFrom (packageJson.dependencies ++
          [("tailwindcss", (valueAt declaredPackages "tailwindcss").getD "^3.4.17"),
            ("postcss", (valueAt declaredPackages "postcss").getD "^8.4.49"),
            ("autoprefixer", (valueAt declaredPackages "autoprefixer").getD "^10.4.20")])
      else packageJson.dependencies
    capabilities :=
      (if hasCss || (!hasTailwind && !hasModules && !hasStyled) then [.plainCss] else []) ++
        (if hasTailwind then [.tailwind] else []) ++ (if hasModules then [.cssModules] else []) ++
        (if hasStyled then [.styledComponents] else []) }

end Styling

section Preview

structure SnapshotPreviewModel where
  files : PreviewFiles
  dependencies : List (Text × String)
  entry : Text

def languageName : ProjectFileLanguage → String
  | .ts => "ts"
  | .tsx => "tsx"
  | .js => "js"
  | .css => "css"
  | .json => "json"
  | .html => "html"
  | .md => "md"

def supportedLanguages : List String := ["ts", "tsx", "js", "css", "json", "html", "md"]

def sortedRecord {α : Type} (localeCompare : String → String → Ordering)
    (entries : List (Text × α)) : List (Text × α) :=
  fromEntries (entries.mergeSort fun left right =>
    localeCompare (String.ofList left.1) (String.ofList right.1) != .gt)

def normalizePreviewPath (path : String) : Except String Text :=
  let trimmed := trim path.toList
  if trimmed = [] || trimmed.contains '\\' then .error ("Unsafe preview file path: " ++ path)
  else
    let relative := if startsWith trimmed (text "/") then trimmed.drop 1 else trimmed
    if (Path.segments relative).any fun segment =>
        segment = [] || segment = text "." || segment = text ".." then
      .error ("Unsafe preview file path: " ++ path)
    else .ok ('/' :: relative)

/-- The loop over the files of a snapshot; the paths of the entries are the set of the paths. -/
def previewEntry (fileEntries : PreviewFiles) (file : ProjectFile) :
    Except String PreviewFiles :=
  if !supportedLanguages.contains (languageName file.language) then
    .error ("Unsupported preview file: " ++ file.path)
  else
    match normalizePreviewPath file.path with
    | .error message => .error message
    | .ok path =>
      if (fileEntries.map (·.1)).contains path then
        .error ("Duplicate preview file path: " ++ String.ofList path)
      else .ok (fileEntries ++ [(path, unitsOf file.content)])

def previewEntries (files : List ProjectFile) : Except String PreviewFiles :=
  files.foldlM previewEntry []

/-- The built CSS stands behind the first stylesheet, which loses its directives. -/
def withPreviewCss (files : PreviewFiles) (previewCss : Units) : PreviewFiles :=
  match files.find? fun entry => endsWith entry.1 (text ".css") with
  | none => files
  | some (cssPath, content) =>
    defineMember files cssPath
      (directivePattern.replaceAll isWordUnit [] content ++ 10 :: previewCss)

def createSnapshotPreviewModel (localeCompare : String → String → Ordering)
    (snapshot : WorkspaceSnapshot) (previewCss : Option Units) :
    Except String SnapshotPreviewModel :=
  match previewEntries snapshot.files with
  | .error message => .error message
  | .ok fileEntries =>
    let paths := fileEntries.map (·.1)
    let entry :=
      if paths.contains (text "/src/main.tsx") then some (text "/src/main.tsx")
      else if paths.contains (text "/src/index.tsx") then some (text "/src/index.tsx")
      else none
    match entry with
    | none => .error "Preview entry file is missing"
    | some entry =>
      let styling := augmentPreviewStyling (sortedRecord localeCompare fileEntries)
        snapshot.packageJson
      let files := match previewCss with
        | none | some [] => styling.files
        | some css => withPreviewCss styling.files css
      .ok
        { files := sortedRecord localeCompare files
          dependencies := sortedRecord localeCompare (fromEntries
            (([("react", "^18.2.0"), ("react-dom", "^18.2.0")] ++ styling.dependencies).map
              asMember))
          entry }

end Preview

section Entries

variable {files : List ProjectFile} {path : String}

theorem languageName_supported (language : ProjectFileLanguage) :
    supportedLanguages.contains (languageName language) = true := by
  cases language <;> decide

theorem normalizePreviewPath_canonical (h : Artifacts.CanonicalPath path.toList) :
    normalizePreviewPath path = .ok ('/' :: path.toList) := by
  have hne := Path.ne_nil_of_plain h.plain
  have hstart : startsWith path.toList (text "/") = false :=
    Artifacts.startsWith_slash.trans (Path.isAbsolute_of_plain h.plain)
  have hsegments : ¬ ((Path.segments path.toList).any (fun segment =>
      segment = [] || segment = text "." || segment = text "..") = true) := by
    rw [Bool.not_eq_true]
    exact Artifacts.refusedSegment_eq_false.mpr h.plain
  unfold normalizePreviewPath
  rw [h.trimmed]
  dsimp only
  rw [if_neg (by simp [hne, h.noBackslash]), hstart]
  exact if_neg hsegments

def previewFile (file : ProjectFile) : Text × Units := ('/' :: file.path.toList, unitsOf file.content)

theorem previewFile_keys (files : List ProjectFile) :
    (files.map previewFile).map (·.1) = (files.map (·.path)).map fun path => '/' :: path.toList := by
  rw [List.map_map, List.map_map]
  rfl

theorem nodup_previewFiles (h : (files.map (·.path)).Nodup) :
    ((files.map previewFile).map (·.1)).Nodup := by
  rw [previewFile_keys]
  refine h.map fun a b hab => ?_
  exact String.toList_injective (List.cons.inj hab).2

/-- The files of a stored snapshot are all shown. -/
theorem previewEntries_stored (h : StoredFiles files) :
    previewEntries files = .ok (files.map previewFile) := by
  have hfold : ∀ (rest done : List ProjectFile),
      (∀ file ∈ rest, Artifacts.CanonicalPath file.path.toList) →
      ((done ++ rest).map (·.path)).Nodup →
      rest.foldlM previewEntry (done.map previewFile) = .ok ((done ++ rest).map previewFile) := by
    intro rest
    induction rest with
    | nil =>
      intro done _ _
      rw [List.append_nil]
      rfl
    | cons file rest ih =>
      intro done hcanonical hnodup
      have hpath := normalizePreviewPath_canonical (hcanonical file List.mem_cons_self)
      have hkeys := nodup_previewFiles hnodup
      have hnew : ((done.map previewFile).map (·.1)).contains ('/' :: file.path.toList) = false := by
        rw [List.map_append, List.map_append, List.nodup_append] at hkeys
        rw [Bool.eq_false_iff, Ne, List.contains_iff_mem]
        intro hmem
        exact hkeys.2.2 _ hmem _ (List.mem_cons_self) rfl
      have hentry : previewEntry (done.map previewFile) file =
          .ok ((done ++ [file]).map previewFile) := by
        rw [previewEntry, languageName_supported, hpath, List.map_append]
        dsimp only
        rw [hnew]
        rfl
      rw [List.foldlM_cons, hentry]
      have hrest := ih (done ++ [file]) (fun f hf => hcanonical f (List.mem_cons_of_mem _ hf))
      rw [List.append_assoc, List.singleton_append] at hrest
      exact hrest hnodup
  exact hfold files [] h.canonical h.nodup

theorem sortedRecord_perm {α : Type} (localeCompare : String → String → Ordering)
    {entries : List (Text × α)} (h : (entries.map (·.1)).Nodup) :
    (sortedRecord localeCompare entries).Perm entries := by
  have hsort := List.mergeSort_perm entries fun left right =>
    localeCompare (String.ofList left.1) (String.ofList right.1) != .gt
  exact (fromEntries_perm ((hsort.map _).nodup_iff.mpr h)).trans hsort

/-- The capabilities that the client finds. -/
theorem augmentPreviewStyling_capabilities (localeCompare : String → String → Ordering)
    (hnodup : (files.map (·.path)).Nodup) (packageJson : ProjectSnapshotPackageJson) :
    (augmentPreviewStyling (sortedRecord localeCompare (files.map previewFile))
        packageJson).capabilities =
      capabilitiesOf (files.any fun file => endsWith ('/' :: file.path.toList) (text ".css"))
        (declares (recordFrom (packageJson.dependencies ++ packageJson.devDependencies))
            "tailwindcss" ||
          files.any fun file => namesTailwindConfig ('/' :: file.path.toList) ||
            hasDirective (unitsOf file.content))
        (files.any fun file => endsWith ('/' :: file.path.toList) (text ".module.css"))
        (declares (recordFrom (packageJson.dependencies ++ packageJson.devDependencies))
            "styled-components" ||
          files.any fun file => importsStyled (unitsOf file.content)) := by
  have hany : ∀ p : Text × Units → Bool,
      (sortedRecord localeCompare (files.map previewFile)).any p =
        files.any fun file => p (previewFile file) := by
    intro p
    rw [(sortedRecord_perm localeCompare (nodup_previewFiles hnodup)).any_eq, List.any_map]
    rfl
  simp only [augmentPreviewStyling, capabilitiesOf, hany, previewFile, Bool.not_or]

end Entries

section Packages

variable {N : Type} {numbers : Json.NumberText N} {isZero : N → Bool} {files : List ProjectFile}
  {packageJson : ProjectSnapshotPackageJson}

/-- A snapshot as the server stores it: `package.json` is the text of the package data. -/
structure StoredSnapshot (files : List ProjectFile) (packageJson : ProjectSnapshotPackageJson) :
    Prop extends StoredFiles files where
  packageFile : HasPackageJson files packageJson
  dependencies : InOrder (packageJson.dependencies.map asMember)
  devDependencies : InOrder (packageJson.devDependencies.map asMember)
  scripts : InOrder (packageJson.scripts.map asMember)

def recordMembers (N : Type) (record : List (String × String)) : List (Text × Json N) :=
  record.map fun entry => (entry.1.toList, .string entry.2.toList)

/-- `packageJsonValue` with any type of numbers. -/
def packageData (N : Type) (packageJson : ProjectSnapshotPackageJson) : Json N :=
  .object [(text "dependencies", .object (recordMembers N packageJson.dependencies)),
    (text "devDependencies", .object (recordMembers N packageJson.devDependencies)),
    (text "scripts", .object (recordMembers N packageJson.scripts))]

theorem recordMembers_keys (record : List (String × String)) :
    (recordMembers N record).map (·.1) = (record.map asMember).map (·.1) := by
  rw [recordMembers, List.map_map, List.map_map]
  rfl

theorem isJson_recordMembers {record : List (String × String)}
    (h : InOrder (record.map asMember)) : Json.IsJson (.object (recordMembers N record)) := by
  have hmembers : ∀ record : List (String × String), Json.MembersJson (recordMembers N record) := by
    intro record
    induction record with
    | nil => trivial
    | cons entry record ih => exact ⟨trivial, ih⟩
  refine ⟨⟨?_, ?_⟩, hmembers record⟩
  · rw [recordMembers_keys]
    exact h.nodup
  · rw [recordMembers, List.pairwise_map]
    exact List.pairwise_map.mp h.sorted

theorem prettyMembers_record (number : N → Text) (indent : ℕ) (record : List (String × String)) :
    Json.prettyMembers number indent (recordMembers N record) =
      record.map fun entry => quote entry.1.toList ++ ':' :: ' ' :: quote entry.2.toList := by
  induction record with
  | nil => rfl
  | cons entry record ih =>
    change _ :: Json.prettyMembers number indent (recordMembers N record) = _
    rw [ih]
    rfl

theorem stringifyPackageJson_eq (packageJson : ProjectSnapshotPackageJson) :
    Json.pretty numbers.print 0 (packageData N packageJson) =
      some (stringifyPackageJson packageJson).toList := by
  have hvalue : packageJsonValue packageJson = packageData Empty packageJson := rfl
  rw [stringifyPackageJson, String.toList_ofList, hvalue]
  simp only [packageData, Json.pretty, Json.prettyMembers, Option.getD_some, Nat.zero_add,
    prettyMembers_record]

theorem parse_packageJson (h : StoredSnapshot files packageJson) :
    Json.parse numbers (stringifyPackageJson packageJson ++ "\n").toList =
      some (packageData N packageJson) := by
  have hjson : Json.IsJson (packageData N packageJson) :=
    ⟨inOrder_of_sublist [text "dependencies", text "devDependencies", text "scripts"]
        (List.Sublist.refl _) (by decide) (by decide), isJson_recordMembers h.dependencies,
      isJson_recordMembers h.devDependencies, isJson_recordMembers h.scripts, trivial⟩
  rw [String.toList_append]
  exact Json.parse_pretty hjson (stringifyPackageJson_eq packageJson)
    (List.all_eq_true.mp (by decide))

theorem packageMaps_stored (h : StoredSnapshot files packageJson) :
    packageMaps numbers files = fromEntries (recordMembers N packageJson.dependencies ++
      recordMembers N packageJson.devDependencies) := by
  obtain ⟨file, hfile, hpath⟩ := h.packageFile.exist
  obtain ⟨found, hfound⟩ : ∃ found, files.find? (·.path = "package.json") = some found := by
    rw [← Option.isSome_iff_exists, List.find?_isSome]
    exact ⟨file, hfile, by simpa using hpath⟩
  have hname : found.path = "package.json" := by simpa using List.find?_some hfound
  have hcontent := h.packageFile.content found (List.mem_of_find?_eq_some hfound) hname
  rw [packageMaps, hfound]
  simp only [hcontent, parse_packageJson h]
  rfl

/-- Both sides read the same packages. -/
theorem includesPackage_stored (h : StoredSnapshot files packageJson) (name : String) :
    includesPackage isZero (packageMaps numbers files) name =
      declares (recordFrom (packageJson.dependencies ++ packageJson.devDependencies)) name := by
  have hvalue : ∀ record : List (String × String),
      valueOf (recordMembers N record) name.toList =
        (valueAt record name).map fun value => .string value.toList := by
    intro record
    rw [← valueOf_asMember, valueOf, valueOf, recordMembers, List.find?_map, List.find?_map,
      Option.map_map, Option.map_map, Option.map_map]
    rfl
  have hkeys : ∀ record : List (String × String), InOrder (record.map asMember) →
      ((recordMembers N record).map (·.1)).Nodup := by
    intro record hrecord
    rw [recordMembers_keys]
    exact hrecord.nodup
  have hclient := @valueAt_recordFrom [] packageJson.dependencies packageJson.devDependencies name
    List.nodup_nil (isRecord_iff.mpr h.dependencies.nodup)
    (isRecord_iff.mpr h.devDependencies.nodup)
  have hserver : valueOf (packageMaps numbers files) name.toList =
      (valueAt (recordFrom (packageJson.dependencies ++ packageJson.devDependencies)) name).map
        fun value => .string value.toList := by
    rw [packageMaps_stored h, fromEntries, (@valueOf_foldl _ [] _ List.nodup_nil name.toList).2,
      List.foldl_append, foldl_entry _ (hkeys _ h.dependencies),
      foldl_entry _ (hkeys _ h.devDependencies), hvalue, hvalue]
    rw [List.nil_append] at hclient
    rw [hclient]
    cases valueAt packageJson.devDependencies name <;>
      cases valueAt packageJson.dependencies name <;> rfl
  rw [includesPackage, text, hserver, declares]
  cases valueAt (recordFrom (packageJson.dependencies ++ packageJson.devDependencies)) name with
  | none => rfl
  | some value => simp [truthy]

end Packages

section Agreement

variable {N : Type} {numbers : Json.NumberText N} {isZero : N → Bool} {files : List ProjectFile}
  {packageJson : ProjectSnapshotPackageJson} {path : Text}

/-- A file in a directory, named as the configuration of Tailwind is. -/
def NestedConfig (path : Text) : Prop :=
  ∃ name ∈ tailwindConfigNames, '/' :: name <:+ path

/-- What shows the use of Tailwind otherwise: a package, a configuration or a directive. -/
def ShowsTailwind (files : List ProjectFile) (packageJson : ProjectSnapshotPackageJson) : Prop :=
  declares (recordFrom (packageJson.dependencies ++ packageJson.devDependencies))
      "tailwindcss" = true ∨
    ∃ file ∈ files, file.path.toList ∈ tailwindConfigNames ∨
      hasDirective (unitsOf file.content) = true

theorem namesTailwindConfig_iff :
    namesTailwindConfig ('/' :: path) = true ↔ path ∈ tailwindConfigNames ∨ NestedConfig path := by
  rw [namesTailwindConfig, List.any_eq_true]
  simp only [endsWith, List.isSuffixOf_iff_suffix, List.suffix_cons_iff, List.cons.injEq, true_and]
  constructor
  · rintro ⟨name, hname, rfl | hsuffix⟩
    · exact .inl hname
    · exact .inr ⟨name, hname, hsuffix⟩
  · rintro (hpath | ⟨name, hname, hsuffix⟩)
    · exact ⟨path, hpath, .inl rfl⟩
    · exact ⟨name, hname, .inr hsuffix⟩

/-- The slash in front of a path makes no difference to its ending. -/
theorem endsWith_slash {c : Char} {ending : Text} (hc : c ≠ '/') :
    endsWith ('/' :: path) (c :: ending) = endsWith path (c :: ending) := by
  rw [Bool.eq_iff_iff, endsWith, endsWith, List.isSuffixOf_iff_suffix, List.isSuffixOf_iff_suffix,
    List.suffix_cons_iff]
  exact ⟨fun h => h.resolve_left fun he => hc (List.cons.inj he).1, .inr⟩

/-- The two findings about Tailwind, on a stored snapshot. -/
theorem tailwind_client_iff :
    (declares (recordFrom (packageJson.dependencies ++ packageJson.devDependencies)) "tailwindcss" ||
        files.any fun file => namesTailwindConfig ('/' :: file.path.toList) ||
          hasDirective (unitsOf file.content)) = true ↔
      ShowsTailwind files packageJson ∨ ∃ file ∈ files, NestedConfig file.path.toList := by
  simp only [Bool.or_eq_true, List.any_eq_true, namesTailwindConfig_iff, ShowsTailwind]
  constructor
  · rintro (hpackage | ⟨file, hfile, (hconfig | hnested) | hdirective⟩)
    · exact .inl (.inl hpackage)
    · exact .inl (.inr ⟨file, hfile, .inl hconfig⟩)
    · exact .inr ⟨file, hfile, hnested⟩
    · exact .inl (.inr ⟨file, hfile, .inr hdirective⟩)
  · rintro ((hpackage | ⟨file, hfile, hconfig | hdirective⟩) | ⟨file, hfile, hnested⟩)
    · exact .inl hpackage
    · exact .inr ⟨file, hfile, .inl (.inl hconfig)⟩
    · exact .inr ⟨file, hfile, .inr hdirective⟩
    · exact .inr ⟨file, hfile, .inl (.inr hnested)⟩

theorem tailwind_server_iff (h : StoredSnapshot files packageJson) :
    (includesPackage isZero (packageMaps numbers files) "tailwindcss" ||
        files.any fun file => tailwindConfigNames.contains file.path.toList ||
          hasDirective (unitsOf file.content)) = true ↔ ShowsTailwind files packageJson := by
  rw [includesPackage_stored h]
  simp only [Bool.or_eq_true, List.any_eq_true, List.contains_iff_mem, ShowsTailwind]

/-- The client finds Tailwind in more snapshots than the server. -/
theorem tailwind_mem_iff (h : StoredSnapshot files packageJson)
    (localeCompare localeCompare' : String → String → Ordering) (hint : Option String) :
    (.tailwind ∈ (augmentPreviewStyling (sortedRecord localeCompare (files.map previewFile))
        packageJson).capabilities ↔
      ShowsTailwind files packageJson ∨ ∃ file ∈ files, NestedConfig file.path.toList) ∧
    (.tailwind ∈ (resolveStylingCapabilities numbers isZero localeCompare' files hint).capabilities ↔
      ShowsTailwind files packageJson) := by
  rw [augmentPreviewStyling_capabilities localeCompare h.nodup,
    resolveStylingCapabilities_capabilities, tailwind_mem_capabilitiesOf,
    tailwind_mem_capabilitiesOf]
  exact ⟨tailwind_client_iff, tailwind_server_iff h⟩

/-- The client and the server find the same capabilities in a stored snapshot exactly when a
configuration in a directory is not all that shows Tailwind. -/
theorem capabilities_agree_iff (h : StoredSnapshot files packageJson)
    (localeCompare localeCompare' : String → String → Ordering) (hint : Option String) :
    ∃ entries, previewEntries files = .ok entries ∧
      ((augmentPreviewStyling (sortedRecord localeCompare entries) packageJson).capabilities =
          (resolveStylingCapabilities numbers isZero localeCompare' files hint).capabilities ↔
        ((∃ file ∈ files, NestedConfig file.path.toList) → ShowsTailwind files packageJson)) := by
  refine ⟨_, previewEntries_stored h.toStoredFiles, fun hsame => ?_, fun hcondition => ?_⟩
  · have hmem := @tailwind_mem_iff _ numbers isZero _ _ h localeCompare localeCompare' hint
    rw [hsame] at hmem
    exact fun hnested => hmem.2.mp (hmem.1.mpr (.inr hnested))
  · have hcss : ∀ path : Text,
        endsWith ('/' :: path) (text ".css") = endsWith path (text ".css") :=
      fun _ => endsWith_slash (by decide)
    have hmodules : ∀ path : Text,
        endsWith ('/' :: path) (text ".module.css") = endsWith path (text ".module.css") :=
      fun _ => endsWith_slash (by decide)
    have htailwind := (@tailwind_client_iff files packageJson).trans
      ((or_iff_left_of_imp hcondition).trans
        (@tailwind_server_iff _ numbers isZero _ _ h).symm)
    rw [augmentPreviewStyling_capabilities localeCompare h.nodup,
      resolveStylingCapabilities_capabilities, Bool.eq_iff_iff.mpr htailwind]
    simp only [hcss, hmodules, includesPackage_stored h]

/-- A project of React alone; one of its packages has a configuration of its own. -/
def nestedPackageJson : ProjectSnapshotPackageJson :=
  ⟨[("react", "^18.2.0")], [("vite", "^5.4.0")], [("build", "vite build")]⟩

def nestedFiles (directory : String) : List ProjectFile :=
  [⟨"package.json", stringifyPackageJson nestedPackageJson ++ "\n", .json, none⟩,
    ⟨directory ++ "tailwind.config.js", "", .js, none⟩, ⟨"src/main.tsx", "", .tsx, none⟩]

theorem storedSnapshot_nested {directory : String} (hdirectory : directory ∈ ["", "packages/ui/"]) :
    StoredSnapshot (nestedFiles directory) nestedPackageJson where
  nodup := by
    revert directory
    decide
  canonical := by
    have hcanonical : ∀ directory ∈ ["", "packages/ui/"], ∀ file ∈ nestedFiles directory,
        Artifacts.canonicalPath file.path.toList = .ok file.path.toList := by
      decide
    exact fun file hfile => Artifacts.canonicalPath_self_iff.mp
      (hcanonical directory hdirectory file hfile)
  text := by
    revert directory
    decide +kernel
  packageFile := by
    refine ⟨⟨_, List.mem_cons_self, rfl⟩, ?_⟩
    revert directory
    decide +kernel
  dependencies := ⟨by decide +kernel, by decide +kernel⟩
  devDependencies := ⟨by decide, by decide⟩
  scripts := ⟨by decide, by decide +kernel⟩

theorem nested_config_differs : ¬ ∀ (N : Type) (numbers : Json.NumberText N) (isZero : N → Bool)
    (files : List ProjectFile) (packageJson : ProjectSnapshotPackageJson),
    StoredSnapshot files packageJson →
    ∀ (localeCompare localeCompare' : String → String → Ordering) (hint : Option String)
      (entries : PreviewFiles), previewEntries files = .ok entries →
      (augmentPreviewStyling (sortedRecord localeCompare entries) packageJson).capabilities =
        (resolveStylingCapabilities numbers isZero localeCompare' files hint).capabilities := by
  intro h
  have hstored := storedSnapshot_nested (List.mem_cons_of_mem "" (List.mem_singleton_self _))
  have hsame := h Json.NumberLiteral Json.numberLiterals (fun _ => false) _ _ hstored compareTexts
    compareTexts none _ (previewEntries_stored hstored.toStoredFiles)
  have hmem := @tailwind_mem_iff _ Json.numberLiterals (fun _ => false) _ _ hstored compareTexts
    compareTexts none
  have hnested : ∃ file ∈ nestedFiles "packages/ui/", NestedConfig file.path.toList := by
    unfold NestedConfig
    decide +kernel
  have hserver : ¬ ShowsTailwind (nestedFiles "packages/ui/") nestedPackageJson := by
    unfold ShowsTailwind
    decide +kernel
  rw [hsame] at hmem
  exact hserver (hmem.2.mp (hmem.1.mpr (.inr hnested)))

theorem capabilities_agree_at_top : ∃ entries, previewEntries (nestedFiles "") = .ok entries ∧
    (augmentPreviewStyling (sortedRecord compareTexts entries) nestedPackageJson).capabilities =
      (resolveStylingCapabilities Json.numberLiterals (fun _ => false) compareTexts (nestedFiles "")
        none).capabilities := by
  obtain ⟨entries, hentries, hagree⟩ := @capabilities_agree_iff _ Json.numberLiterals
    (fun _ => false) _ _ (storedSnapshot_nested List.mem_cons_self) compareTexts compareTexts none
  refine ⟨entries, hentries, hagree.mpr fun _ => ?_⟩
  unfold ShowsTailwind
  decide +kernel

/-- Package data that the server has merged names Tailwind, unless it is given an empty version. -/
theorem showsTailwind_merged {localeCompare : String → String → Ordering}
    {base : Option ProjectSnapshotPackageJson} {generated : GenerationResult}
    (hbase : IsRecord (base.elim [] (·.devDependencies)))
    (hgenerated : IsRecord generated.devDependencies)
    (hversion : valueAt generated.devDependencies "tailwindcss" ≠ some "" ∧
      valueAt (base.elim [] (·.devDependencies)) "tailwindcss" ≠ some "") :
    ShowsTailwind files (mergeProjectPackageJson localeCompare base generated) := by
  have hrequired : IsRecord requiredDevDependencies := by
    unfold IsRecord
    decide
  have hvalue := valueAt_merged localeCompare hrequired hbase hgenerated "tailwindcss"
  obtain ⟨version, hsome, hne⟩ : ∃ version, (valueAt generated.devDependencies "tailwindcss").or
      ((valueAt (base.elim [] (·.devDependencies)) "tailwindcss").or
        (valueAt requiredDevDependencies "tailwindcss")) = some version ∧ version ≠ "" := by
    cases hfirst : valueAt generated.devDependencies "tailwindcss" with
    | some version => exact ⟨version, rfl, fun he => hversion.1 (by rw [hfirst, he])⟩
    | none =>
      cases hsecond : valueAt (base.elim [] (·.devDependencies)) "tailwindcss" with
      | some version => exact ⟨version, rfl, fun he => hversion.2 (by rw [hsecond, he])⟩
      | none => exact ⟨"^3.4.17", by decide, by decide⟩
  rw [hsome] at hvalue
  have hrecord : ∀ entries, IsRecord (sortRecord localeCompare (recordFrom entries)) := fun entries =>
    (isRecord_recordFrom entries).perm (sortRecord_perm localeCompare (isRecord_recordFrom entries))
  have hboth := @valueAt_recordFrom [] (mergeProjectPackageJson localeCompare base
    generated).dependencies (mergeProjectPackageJson localeCompare base generated).devDependencies
    "tailwindcss" List.nodup_nil (hrecord _) (hrecord _)
  have hdev : valueAt (mergeProjectPackageJson localeCompare base generated).devDependencies
      "tailwindcss" = some version := hvalue
  rw [hdev, List.nil_append, Option.some_or] at hboth
  left
  rw [declares, hboth]
  simpa using hne

end Agreement

end AppBuilder.Web
