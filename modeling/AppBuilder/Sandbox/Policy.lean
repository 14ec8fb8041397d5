import AppBuilder.Sandbox.Types

/-! `sandbox/policy.ts`, and what the sandbox services read of `sandbox/config.ts`. -/
namespace AppBuilder.Sandbox
open Agent

structure CommandTimeouts where
  install : ℕ
  typeCheck : ℕ
  build : ℕ

structure SandboxConfig where
  localEnabled : Bool
  allowedBuildImages : List String
  readinessTimeoutMs : ℕ
  leaseSeconds : ℕ
  autoDeleteSeconds : ℕ
  orphanGraceMs : ℕ
  heartbeatTimeoutMs : ℕ
  commandTimeouts : CommandTimeouts

inductive BuildCommandName where
  | install
  | typeCheck
  | build
  deriving DecidableEq, Repr

def BuildCommandName.name : BuildCommandName → String
  | .install => "install"
  | .typeCheck => "type-check"
  | .build => "build"

def PLATFORM_MAX_OUTPUT_BYTES : ℕ := 1024 * 1024

def MAX_SAFE_INTEGER : ℕ := 2 ^ 53 - 1

/-- `Number.isSafeInteger(n) && n > 0`. -/
def isPositiveSafeInteger (n : ℕ) : Bool := 0 < n && n ≤ MAX_SAFE_INTEGER

def deny {α : Type} (message : String) : Except Failure α :=
  .error (.sandbox ⟨.policyDenied, message, false, none⟩)

def assertProviderAllowed (config : SandboxConfig) (provider : String) (production : Bool) :
    Except Failure Unit :=
  if provider.isEmpty then deny "Sandbox provider is required"
  else if provider == "local" && (production || !config.localEnabled) then
    deny "LocalProcessProvider is not allowed"
  else .ok ()

def assertSpecAllowed (config : SandboxConfig) (spec : SandboxSpec) : Except Failure Unit :=
  if !config.allowedBuildImages.contains spec.runtime.image then
    deny "Sandbox runtime image is not allowed"
  else if spec.runtime.workingDirectory != "/workspace" then
    deny "Sandbox working directory is not allowed"
  else if !(0 < spec.resources.cpu && isPositiveSafeInteger spec.resources.memoryMiB &&
      isPositiveSafeInteger spec.resources.diskMiB) then
    deny "Sandbox resource profile is invalid"
  else if !(isPositiveSafeInteger spec.lifecycle.leaseSeconds &&
      isPositiveSafeInteger spec.lifecycle.autoDeleteSeconds) then
    deny "Sandbox lifecycle is invalid"
  else .ok ()

/-- The capabilities that are not the same for every provider. -/
inductive Capability where
  | preview
  | networkPolicy
  deriving DecidableEq, Repr

/-- `files`, `processes` and `lifecycle` are required as well, and every provider has them. -/
def requiredCapabilities (spec : SandboxSpec) : List Capability :=
  (if spec.ownership.purpose = .preview then [.preview] else []) ++
    if spec.networkPolicy.defaultAction = .deny || spec.networkPolicy.allowedDomains != [] ||
      spec.networkPolicy.allowedCidrs != [] then [.networkPolicy] else []

def Capability.name : Capability → String
  | .preview => "preview"
  | .networkPolicy => "networkPolicy"

def SandboxCapabilities.has (capabilities : SandboxCapabilities) : Capability → Bool
  | .preview => capabilities.preview
  | .networkPolicy => capabilities.networkPolicy

def buildCommand (config : SandboxConfig) (name : BuildCommandName) (hasPackageLock : Bool)
    (maxOutputBytes : ℕ) : Except Failure SandboxCommand :=
  if !isPositiveSafeInteger maxOutputBytes then
    deny "Command output limit must be a positive safe integer"
  else .ok {
    executable := "npm"
    args := match name with
      | .install => [if hasPackageLock then "ci" else "install"]
      | .build => ["run", "build", "--", "--base=./"]
      | .typeCheck => ["run", name.name]
    cwd := "/workspace"
    env := [("CI", "true")]
    timeoutMs := match name with
      | .install => config.commandTimeouts.install
      | .typeCheck => config.commandTimeouts.typeCheck
      | .build => config.commandTimeouts.build
    maxOutputBytes := min maxOutputBytes PLATFORM_MAX_OUTPUT_BYTES }

end AppBuilder.Sandbox
