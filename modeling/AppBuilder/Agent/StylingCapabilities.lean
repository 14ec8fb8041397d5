import AppBuilder.Agent.BuildEvidence
import AppBuilder.Agent.EffectiveChanges
import AppBuilder.Encoding.JsonPretty

/-! `agent/styling/resolveCapabilities.ts`: how the server finds out how a project is styled. JSON
is read with any type of numbers. -/
namespace AppBuilder.Agent.Styling
open Encoding

def StylingCapability.name : StylingCapability → String
  | .plainCss => "plain-css"
  | .tailwind => "tailwind"
  | .cssModules => "css-modules"
  | .styledComponents => "styled-components"

def capabilityOrder : List StylingCapability :=
  [.plainCss, .tailwind, .cssModules, .styledComponents]

/-- `/(?:from\s+|require\()['"]styled-components['"]/` -/
def styledImportPattern : Regex ℕ :=
  .seq (Regex.anyOf [.seq (spelled "from") (Regex.plus (.one isSpaceUnit)), spelled "require("])
    (.seq (oneOf "'\"") (.seq (spelled "styled-components") (oneOf "'\"")))

/-- The texts that `/^tailwind\.config\.(?:js|cjs|mjs|ts)$/` matches. -/
def tailwindConfigNames : List Text :=
  ["js", "cjs", "mjs", "ts"].map fun ending => text "tailwind.config." ++ text ending

section PackageMaps

variable {N : Type}

def property (value : Json N) (name : String) : Option (Json N) :=
  match value with
  | .object members => valueOf members (text name)
  | _ => none

/-- The properties that `...value` copies. Those of a text or an array are indices, which are not
read. -/
def ownProperties : Option (Json N) → List (Text × Json N)
  | some (.object members) => members
  | _ => []

def packageMaps (numbers : Json.NumberText N) (files : List ProjectFile) : List (Text × Json N) :=
  match files.find? (·.path = "package.json") with
  | none => []
  | some packageFile =>
    match Json.parse numbers packageFile.content.toList with
    | none | some .null => []
    | some parsed =>
      fromEntries (ownProperties (property parsed "dependencies") ++
        ownProperties (property parsed "devDependencies"))

/-- `Boolean(value)` -/
def truthy (isZero : N → Bool) : Json N → Bool
  | .undefined | .null => false
  | .bool b => b
  | .number n => !isZero n
  | .string s => s ≠ []
  | .array _ | .object _ => true

def includesPackage (isZero : N → Bool) (dependencies : List (Text × Json N)) (name : String) :
    Bool :=
  (valueOf dependencies (text name)).any (truthy isZero)

end PackageMaps

/-- What was found for each capability, in the order in which it was added. -/
abbrev Evidence : Type := List (StylingCapability × String)

structure StylingResolution where
  capabilities : List StylingCapability
  evidence : Evidence
  issues : List StylingIssue

def hasDirective (content : Units) : Bool := directivePattern.test isWordUnit content

def importsStyled (content : Units) : Bool := styledImportPattern.test isWordUnit content

def fileEvidence (file : ProjectFile) : Evidence :=
  (if endsWith file.path.toList (text ".css") then
    [(.plainCss, file.path ++ " is a CSS stylesheet")] else []) ++
  (if endsWith file.path.toList (text ".module.css") then
    [(.cssModules, file.path ++ " is a CSS Module")] else []) ++
  (if hasDirective (unitsOf file.content) then
    [(.tailwind, file.path ++ " contains @tailwind directives")] else []) ++
  (if tailwindConfigNames.contains file.path.toList then
    [(.tailwind, file.path ++ " configures Tailwind")] else []) ++
  (if importsStyled (unitsOf file.content) then
    [(.styledComponents, file.path ++ " imports styled-components")] else [])

def metadataConflict (hint : StylingCapability) : StylingIssue where
  capability := hint
  code := .metadataConflict
  phase := .sourceContract
  message := unitsOf ("Project styling hint " ++ hint.name ++ " conflicts with source evidence")
  previewRecoverable := true

def hintIssues (hint : Option String) (detected : List StylingCapability) : List StylingIssue :=
  match hint.bind fun hint => capabilityOrder.find? fun c => c.name == hint with
  | none => []
  | some hint =>
    if !detected.contains hint && detected.any (· ≠ .plainCss) then [metadataConflict hint] else []

section Resolve

variable {N : Type} (numbers : Json.NumberText N) (isZero : N → Bool)
  (localeCompare : String → String → Ordering)

/-- The evidence of the sources and of the dependencies. -/
def projectEvidence (files : List ProjectFile) : Evidence :=
  let dependencies := packageMaps numbers files
  (files.mergeSort fun a b => localeCompare a.path b.path != .gt).flatMap fileEvidence ++
    (if includesPackage isZero dependencies "tailwindcss" then
      [(.tailwind, "package.json includes tailwindcss")] else []) ++
    (if includesPackage isZero dependencies "styled-components" then
      [(.styledComponents, "package.json includes styled-components")] else [])

def resolveStylingCapabilities (files : List ProjectFile) (hint : Option String) :
    StylingResolution :=
  let evidence := projectEvidence numbers isZero localeCompare files
  let detected := capabilityOrder.filter fun capability => evidence.any (·.1 == capability)
  if detected.length = 0 then
    ⟨[.plainCss], evidence ++ [(.plainCss, "plain CSS is the default styling capability")],
      hintIssues hint [.plainCss]⟩
  else ⟨detected, evidence, hintIssues hint detected⟩

end Resolve

/-- What was found, as the list of the capabilities; plain CSS is the default. -/
def capabilitiesOf (css tailwind modules styled : Bool) : List StylingCapability :=
  (if css || !(tailwind || modules || styled) then [.plainCss] else []) ++
    (if tailwind then [.tailwind] else []) ++ (if modules then [.cssModules] else []) ++
    (if styled then [.styledComponents] else [])

theorem tailwind_mem_capabilitiesOf {css tailwind modules styled : Bool} :
    .tailwind ∈ capabilitiesOf css tailwind modules styled ↔ tailwind = true := by
  cases css <;> cases tailwind <;> cases modules <;> cases styled <;> decide

section Detected

variable {N : Type} {numbers : Json.NumberText N} {isZero : N → Bool}
  {localeCompare : String → String → Ordering} {files : List ProjectFile}

theorem any_projectEvidence (capability : StylingCapability) :
    (projectEvidence numbers isZero localeCompare files).any (·.1 == capability) =
      (files.any (fun file => (fileEvidence file).any (·.1 == capability)) ||
        (includesPackage isZero (packageMaps numbers files) "tailwindcss" &&
          StylingCapability.tailwind == capability) ||
        (includesPackage isZero (packageMaps numbers files) "styled-components" &&
          StylingCapability.styledComponents == capability)) := by
  have hsources : ((files.mergeSort fun a b => localeCompare a.path b.path != .gt).flatMap
      fileEvidence).any (·.1 == capability) =
        files.any fun file => (fileEvidence file).any (·.1 == capability) := by
    rw [List.any_flatMap]
    exact (List.mergeSort_perm files _).any_eq
  simp only [projectEvidence, List.any_append, hsources]
  cases includesPackage isZero (packageMaps numbers files) "tailwindcss" <;>
    cases includesPackage isZero (packageMaps numbers files) "styled-components" <;> simp

/-- The capabilities that the server finds. -/
theorem resolveStylingCapabilities_capabilities (hint : Option String) :
    (resolveStylingCapabilities numbers isZero localeCompare files hint).capabilities =
      capabilitiesOf (files.any fun file => endsWith file.path.toList (text ".css"))
        (includesPackage isZero (packageMaps numbers files) "tailwindcss" ||
          files.any fun file => tailwindConfigNames.contains file.path.toList ||
            hasDirective (unitsOf file.content))
        (files.any fun file => endsWith file.path.toList (text ".module.css"))
        (includesPackage isZero (packageMaps numbers files) "styled-components" ||
          files.any fun file => importsStyled (unitsOf file.content)) := by
  have hfile : ∀ (file : ProjectFile),
      ((fileEvidence file).any (·.1 == .plainCss) = endsWith file.path.toList (text ".css")) ∧
      ((fileEvidence file).any (·.1 == .tailwind) =
        (tailwindConfigNames.contains file.path.toList || hasDirective (unitsOf file.content))) ∧
      ((fileEvidence file).any (·.1 == .cssModules) =
        endsWith file.path.toList (text ".module.css")) ∧
      ((fileEvidence file).any (·.1 == .styledComponents) =
        importsStyled (unitsOf file.content)) := by
    intro file
    unfold fileEvidence
    generalize endsWith file.path.toList (text ".css") = css
    generalize endsWith file.path.toList (text ".module.css") = modules
    generalize hasDirective (unitsOf file.content) = directive
    generalize tailwindConfigNames.contains file.path.toList = config
    generalize importsStyled (unitsOf file.content) = styled
    cases css <;> cases modules <;> cases directive <;> cases config <;> cases styled <;>
      exact ⟨rfl, rfl, rfl, rfl⟩
  have hcss := @any_projectEvidence _ numbers isZero localeCompare files .plainCss
  have htailwind := @any_projectEvidence _ numbers isZero localeCompare files .tailwind
  have hmodules := @any_projectEvidence _ numbers isZero localeCompare files .cssModules
  have hstyled := @any_projectEvidence _ numbers isZero localeCompare files .styledComponents
  simp only [hfile] at hcss htailwind hmodules hstyled
  unfold resolveStylingCapabilities capabilityOrder
  simp only [List.filter_cons, List.filter_nil, hcss, htailwind, hmodules, hstyled]
  generalize (files.any fun file => endsWith file.path.toList (text ".css")) = css
  generalize (files.any fun file => endsWith file.path.toList (text ".module.css")) = modules
  generalize (files.any fun file => tailwindConfigNames.contains file.path.toList ||
    hasDirective (unitsOf file.content)) = config
  generalize (files.any fun file => importsStyled (unitsOf file.content)) = styled
  generalize includesPackage isZero (packageMaps numbers files) "tailwindcss" = tailwind
  generalize includesPackage isZero (packageMaps numbers files) "styled-components" = components
  cases css <;> cases modules <;> cases config <;> cases styled <;> cases tailwind <;>
    cases components <;> rfl

end Detected

end AppBuilder.Agent.Styling
