import AppBuilder.Encoding.Json
import AppBuilder.Sandbox.QuotaScheduler

/-! `SandboxService.ts`: the life of a build sandbox. -/
namespace AppBuilder.Sandbox
open Agent Async Encoding
open Store (ProjectArtifactBundle)

/-- `kinds` are the providers that are configured, `localeCompare` is the order of the locale. -/
structure SandboxServiceOptions where
  config : SandboxConfig
  kinds : List String
  production : Bool
  localeCompare : String → String → Ordering

variable (options : SandboxServiceOptions)

def sandboxError {α : Type} (code : SandboxErrorCode) (message : String)
    (retryable : Bool := false) : SandboxPromise α :=
  .throw (.sandbox ⟨code, message, retryable, none⟩)

/-- A check that only reads its arguments. -/
def check {α : Type} : Except Failure α → SandboxPromise α
  | .ok a => .pure a
  | .error e => .throw e

/-- `this.provider(kind)`. -/
def requireProvider (kind : String) : SandboxPromise Unit :=
  if options.kinds.contains kind then return ()
  else sandboxError .providerUnavailable "Sandbox Provider is not configured" true

def requireLease (leaseId : ObjectId) : SandboxPromise SandboxLease := do
  let lease : Option SandboxLease ← perform (.findLease leaseId)
  match lease with
  | some lease => return lease
  | none => sandboxError .notFound "Sandbox Lease not found"

/-- `changed ?? (await this.requireLease(leaseId))`. -/
def orRequire (changed : Option SandboxLease) (leaseId : ObjectId) : SandboxPromise SandboxLease :=
  match changed with
  | some lease => .pure lease
  | none => requireLease leaseId

def assertOwnership (lease : SandboxLease) (expected : SandboxOwnership) : SandboxPromise Unit :=
  if lease.workspaceId ≠ expected.workspaceId ∨ lease.projectId ≠ expected.projectId ∨
      lease.branchId ≠ expected.branchId ∨ lease.runId ≠ expected.runId.get? ∨
      lease.snapshotId ≠ expected.snapshotId.get? ∨ lease.purpose ≠ expected.purpose then
    sandboxError .ownershipMismatch "Sandbox Lease ownership does not match"
  else return ()

def jsonRecord (entries : List (String × String)) : Json Empty :=
  .object (entries.map fun entry => (text entry.1, .string (text entry.2)))

def packageJsonText (packageJson : Agent.ProjectSnapshotPackageJson) : String :=
  let value : Json Empty := .object [
    (text "dependencies", jsonRecord packageJson.dependencies),
    (text "devDependencies", jsonRecord packageJson.devDependencies),
    (text "scripts", jsonRecord packageJson.scripts)]
  String.ofList ((value.pretty Empty.elim 0).getD (text "undefined") ++ ['\n'])

/-- `Map.set`: an entry that exists keeps its place. -/
def setFile (files : List SandboxFile) (file : SandboxFile) : List SandboxFile :=
  if files.any fun f => f.path == file.path then
    files.map fun f => if f.path == file.path then file else f
  else files ++ [file]

def uploadFiles (bundle : ProjectArtifactBundle) : List SandboxFile :=
  let files := bundle.files.foldl (fun files file => setFile files ⟨file.path, file.content⟩) []
  setFile files ⟨"package.json", packageJsonText bundle.packageJson⟩

def sourceUnavailable : Failure :=
  .sandbox ⟨.sourceUnavailable, "Sandbox source Artifact is unavailable", false, none⟩

def readOwnedBundle (artifact : SourceArtifact) (workspaceId projectId : ObjectId) :
    SandboxPromise ProjectArtifactBundle :=
  (perform (.readOwnedBundle artifact workspaceId projectId)).tryCatch fun _ =>
    .throw sourceUnavailable

def provisionFailed : LeaseError :=
  { code := .provisionFailed, message := "Sandbox provisioning failed", retryable := true }

def terminatedAt (leaseId : ObjectId) : SandboxPromise (Option SandboxLease) := do
  let now : Time ← perform .now
  transition leaseId [.terminating] .terminated { terminatedAt := some now }

def cleanupFailedProvisioning (lease : SandboxLease) (ref : SandboxRef) : SandboxPromise Unit := do
  let _ : Option SandboxLease ←
    transition lease._id [.provisioning] .terminating { error := some provisionFailed }
  let receipt ← (perform (.destroy ref)).attempt
  match receipt with
  | .error _ => return ()
  | .ok (receipt : SandboxDestroyReceipt) =>
    if receipt.pending then return ()
    else
      let _ : Option SandboxLease ← terminatedAt lease._id
      return ()

/-- The `try` block of `resumeProvisioning`. -/
def hydrate (lease : SandboxLease) (ref : SandboxRef) : SandboxPromise (Option SandboxLease) := do
  let bundle : ProjectArtifactBundle ←
    readOwnedBundle lease.sourceArtifact lease.workspaceId lease.projectId
  let _ : Unit ← perform (.connect ref)
  let _ : Unit ← perform (.waitUntilReady ref options.config.readinessTimeoutMs)
  let _ : Unit ← perform (.writeFiles ref (uploadFiles bundle))
  let readyAt : Time ← perform .now
  let lastHeartbeatAt : Time ← perform .now
  transition lease._id [.provisioning] .ready
    { readyAt := some readyAt, lastHeartbeatAt := some lastHeartbeatAt }

/-- The last read of the lease is not awaited inside the `try` block. -/
def resumeProvisioning (leaseId : ObjectId) : SandboxPromise SandboxLease := do
  let lease ← requireLease leaseId
  if lease.state = .ready ∨ lease.state = .running then return lease
  else match lease.state, lease.ref? with
    | .provisioning, some ref => do
      requireProvider options lease.provider
      let ready ← (hydrate options lease ref).tryCatch fun error => do
        cleanupFailedProvisioning lease ref
        if error.isSandboxError then .throw error
        else sandboxError .provisionFailed "Sandbox provisioning failed" true
      orRequire ready leaseId
    | _, _ => sandboxError .notReady "Sandbox has no bound Provider resource" true

def assertCapabilities (spec : SandboxSpec) (kind : String) : SandboxPromise Unit := do
  let capabilities : SandboxCapabilities ← (perform (.describe kind)).tryCatch fun _ =>
    sandboxError .providerUnavailable "Sandbox Provider is unavailable" true
  match (requiredCapabilities spec).find? fun capability => !capabilities.has capability with
  | none => return ()
  | some capability =>
    sandboxError .capabilityMissing
      ("Sandbox Provider lacks required capability: " ++ capability.name)

/-- The provider did not create anything. -/
def Failure.notCreated? : Failure → Option SandboxError
  | .sandbox error => if error.outcome = some .notCreated then some error else none
  | .duplicateKey | .other => none

/-- Create the resource and bind the lease to it. -/
def bindResource (lease : SandboxLease) (spec : SandboxSpec) (kind : String) :
    SandboxPromise SandboxLease := do
  let ref : SandboxRef ← (perform (.create kind spec)).tryCatch fun error => do
    match error.notCreated? with
    | none => .throw error
    | some e =>
      let _ : Option SandboxLease ← transition lease._id [.provisioning] .failed
        { error := some { code := e.code, message := e.message, retryable := e.retryable } }
      .throw error
  let bound : Option SandboxLease ← perform (.bindExternalId lease._id ref)
  let lease ← orRequire bound lease._id
  if lease.ref? ≠ some ref then
    sandboxError .ownershipMismatch "Sandbox Lease is bound to a different Provider resource"
  else return lease

def enterProvisioning (lease : SandboxLease) : SandboxPromise SandboxLease :=
  if lease.state = .reserved then do
    let changed ← transition lease._id [.reserved] .provisioning
    orRequire changed lease._id
  else return lease

def createBuildSandbox (input : CreateBuildSandboxInput) : SandboxPromise SandboxLease := do
  requireProvider options input.provider
  check (assertProviderAllowed options.config input.provider options.production)
  let spec := buildSpec options.config input
  check (assertSpecAllowed options.config spec)
  let _ ← readOwnedBundle input.sourceArtifact input.workspaceId input.projectId
  assertCapabilities spec input.provider
  let requestedAt : Time ← perform .now
  let lease ← reserve (reservationRecord options.config input requestedAt 0)
  if lease.state = .ready ∨ lease.state = .running then return lease
  else
    let lease ← enterProvisioning lease
    if lease.state ≠ .provisioning then
      sandboxError .invalidState "Sandbox Lease cannot be provisioned from its current state"
    else
      if lease.externalId.isSome then resumeProvisioning options lease._id
      else
        let lease ← bindResource lease spec input.provider
        resumeProvisioning options lease._id

def enterTerminating (lease : SandboxLease) : SandboxPromise SandboxLease :=
  if lease.state ≠ .terminating then do
    let next ← transition lease._id [lease.state] .terminating
    orRequire next lease._id
  else return lease

def terminate (leaseId : ObjectId) (expectedOwnership : SandboxOwnership) :
    SandboxPromise SandboxLease := do
  let lease ← requireLease leaseId
  assertOwnership lease expectedOwnership
  if lease.state = .terminated then return lease
  else
    let lease ← enterTerminating lease
    if lease.state ≠ .terminating then
      sandboxError .invalidState "Sandbox Lease cannot be terminated"
    else match lease.ref? with
      | none => do
        let done ← terminatedAt lease._id
        orRequire done lease._id
      | some ref => do
        requireProvider options lease.provider
        let receipt : SandboxDestroyReceipt ← perform (.destroy ref)
        if receipt.pending then requireLease lease._id
        else
          let inspection : SandboxInspection ← perform (.inspect ref)
          if inspection.status ≠ .missing then requireLease lease._id
          else
            let done ← terminatedAt lease._id
            orRequire done lease._id

/-- The heartbeat of a command's loop. -/
def heartbeat (leaseId : ObjectId) (ref : SandboxRef) : SandboxPromise Unit := do
  let _ : Unit ← perform (.refreshActivity ref)
  let heartbeatAt : Time ← perform .now
  let stored : Option SandboxLease ← perform (.heartbeatRunning leaseId ref heartbeatAt)
  if stored.isNone then .throw SandboxWorld.heartbeatRefused else return ()

def heartbeatFailure (error : Failure) : Failure :=
  if error.isSandboxError then error
  else .sandbox ⟨.providerUnavailable, "Sandbox heartbeat failed", true, none⟩

/-- `heartbeat.heartbeatNow()`, which the command awaits. -/
def firstHeartbeat (commandId : ℕ) (leaseId : ObjectId) (ref : SandboxRef) :
    SandboxPromise Unit := do
  let outcome ← (heartbeat leaseId ref).attempt
  match outcome with
  | .ok _ => perform (.settleHeartbeat commandId false none)
  | .error error => do
    let _ : Unit ← perform (.settleHeartbeat commandId false (some (heartbeatFailure error)))
    .throw (heartbeatFailure error)

/-- `runScheduled`, which the interval of the loop calls. -/
def runScheduled (commandId : ℕ) (leaseId : ObjectId) (ref : SandboxRef) :
    SandboxPromise Unit := do
  let idle : Bool ← perform (.beginHeartbeat commandId)
  if idle then
    let outcome ← (heartbeat leaseId ref).attempt
    match outcome with
    | .ok _ => perform (.settleHeartbeat commandId true none)
    | .error error => perform (.settleHeartbeat commandId true (some (heartbeatFailure error)))
  else return ()

def throwIfAborted (signal : Option ℕ) : SandboxPromise Unit := do
  let reason : Option Failure ← perform (.signalAborted signal)
  match reason with
  | some reason => .throw reason
  | none => return ()

/-- `throwIfAborted(commandController.signal)`. -/
def throwIfCommandAborted (commandId : ℕ) : SandboxPromise Unit := do
  let reason : Option Failure ← perform (.commandAborted commandId)
  match reason with
  | some reason => .throw reason
  | none => return ()

/-- `removeEventListener` and `heartbeat.close()`. -/
def closeHeartbeat (commandId : ℕ) : SandboxPromise Unit := do
  let _ : Unit ← perform (.closeCommand commandId)
  perform (.awaitHeartbeat commandId)

/-- The `try` block of `runBuildCommand`. -/
def runCommand (commandId : ℕ) (leaseId : ObjectId) (ref : SandboxRef) (command : SandboxCommand) :
    SandboxPromise SandboxCommandResult := do
  firstHeartbeat commandId leaseId ref
  throwIfCommandAborted commandId
  let result : SandboxCommandResult ← perform (.run commandId ref command)
  throwIfCommandAborted commandId
  if result.timedOut then sandboxError .commandTimeout "Sandbox command timed out" true
  else return result

/-- A resource that is not found is lost. -/
def connectOrLose (lease : SandboxLease) (ref : SandboxRef) : SandboxPromise Unit :=
  (perform (.connect ref)).tryCatch fun error => do
    if error.hasCode .notFound then
      let _ : Option SandboxLease ← transition lease._id [lease.state] .lost
      sandboxError .lost "Sandbox Provider resource was lost"
    else .throw error

/-- The lease enters its running state, unless it has. -/
def enterRunning (lease : SandboxLease) : SandboxPromise SandboxLease :=
  if lease.state = .ready then do
    let lastHeartbeatAt : Time ← perform .now
    let changed ← transition lease._id [.ready] .running { lastHeartbeatAt := some lastHeartbeatAt }
    let lease ← orRequire changed lease._id
    if lease.state ≠ .running then
      sandboxError .invalidState "Sandbox Lease did not enter running state"
    else return lease
  else return lease

structure RunBuildCommandInput where
  leaseId : ObjectId
  expectedOwnership : SandboxOwnership
  command : BuildCommandName
  signal : Option ℕ

def runBuildCommand (input : RunBuildCommandInput) : SandboxPromise SandboxCommandResult := do
  throwIfAborted input.signal
  let lease ← requireLease input.leaseId
  assertOwnership lease input.expectedOwnership
  match lease.state == .ready || lease.state == .running, lease.ref? with
  | true, some ref => do
    requireProvider options lease.provider
    connectOrLose lease ref
    let workspace : Option WorkspaceDocument ← perform (.findWorkspace lease.workspaceId)
    match workspace with
    | none => sandboxError .policyDenied "Sandbox Workspace is unavailable"
    | some workspace =>
      let hasPackageLock : Bool ← perform (.fileExists ref "package-lock.json")
      let command ← check (buildCommand options.config input.command hasPackageLock
        workspace.executionLimits.maxLogBytesPerCommand)
      let lease ← enterRunning lease
      -- `externalId!`: a running lease is bound
      let ref : SandboxRef := ⟨lease.provider, lease.externalId.getD ""⟩
      let commandId : ℕ ← perform (.openCommand lease._id ref input.signal)
      (runCommand commandId lease._id ref command).tryFinally (closeHeartbeat commandId)
  | _, _ => sandboxError .invalidState "Sandbox Lease cannot execute commands"

end AppBuilder.Sandbox
