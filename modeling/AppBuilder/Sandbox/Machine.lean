import AppBuilder.Sandbox.SandboxReconciler

/-! The sandbox services: their callers, the timers of commands, and the passes of the reconciler,
interleaved, with providers that change, failing operations and crashes. -/
namespace AppBuilder.Sandbox
open Agent Async

inductive SandboxCall where
  | reserve (request : SandboxReservationRecord)
  | createBuildSandbox (input : CreateBuildSandboxInput)
  | resumeProvisioning (leaseId : ObjectId)
  | runBuildCommand (input : RunBuildCommandInput)
  | runScheduled (commandId : ℕ) (leaseId : ObjectId) (ref : SandboxRef)
  | terminate (leaseId : ObjectId) (expectedOwnership : SandboxOwnership)
  | reconcile

/-- What a call returns. -/
inductive SandboxResult where
  | done
  | lease (lease : SandboxLease)
  | command (result : SandboxCommandResult)

inductive SandboxAct (key : SandboxRef → String) where
  | elapse (ms : ℕ)
  | change (providers : Providers key)
  | abortSignal (signal : ℕ) (reason : Failure)

variable {key : SandboxRef → String}

/-- The interval of a command's loop runs until the loop is closed. -/
def SandboxCall.spawnable : SandboxCall → SandboxWorld key → Bool
  | .runScheduled commandId leaseId ref, w =>
    (w.command? commandId).any fun c => c.leaseId == leaseId && c.ref == ref && !c.closed
  | _, _ => true

def SandboxAct.apply : SandboxAct key → SandboxWorld key → Option (SandboxWorld key)
  | .elapse ms, w => some { w with clock := w.clock + ms }
  | .change providers, w => some { w with providers }
  | .abortSignal signal reason, w => some { w with
      signals := w.signals ++ [(signal, reason)]
      commands := w.commands.map fun c => if c.signal == some signal then c.abort reason else c }

/-- A process that stops lets its locks expire, and its intervals stop. -/
def stopProcess (t : ThreadId) (w : SandboxWorld key) : SandboxWorld key :=
  { w with
    locks := w.locks.filter fun lock => lock.2 != t
    commands := w.commands.map fun c => if c.thread == t then { c with closed := true } else c }

variable (options : SandboxServiceOptions) (directory : Directory)

def SandboxCall.body : SandboxCall → SandboxPromise SandboxResult
  | .reserve request => do let lease ← Sandbox.reserve request; return .lease lease
  | .createBuildSandbox input => do
    let lease ← Sandbox.createBuildSandbox options input
    return .lease lease
  | .resumeProvisioning leaseId => do
    let lease ← Sandbox.resumeProvisioning options leaseId
    return .lease lease
  | .runBuildCommand input => do
    let result ← Sandbox.runBuildCommand options input
    return .command result
  | .runScheduled commandId leaseId ref => do
    Sandbox.runScheduled commandId leaseId ref
    return .done
  | .terminate leaseId expectedOwnership => do
    let lease ← Sandbox.terminate options leaseId expectedOwnership
    return .lease lease
  | .reconcile => do Sandbox.reconcile options; return .done

def sandboxes : Machine sandboxApi (SandboxWorld key) SandboxCall SandboxResult (SandboxAct key) where
  exec t _ op w := w.exec directory t op
  body := SandboxCall.body options
  fault := SandboxOp.mayFail
  spawnable := SandboxCall.spawnable
  act := SandboxAct.apply
  crashes := true
  onCrash := stopProcess

abbrev Running (key : SandboxRef → String) : Type :=
  Config sandboxApi (SandboxWorld key) SandboxCall SandboxResult

abbrev Step (key : SandboxRef → String) : Type := Label sandboxApi SandboxCall (SandboxAct key)

/-- The database before the first lease, and a process that has just started. -/
structure SandboxWorld.Initial (w : SandboxWorld key) : Prop where
  leases : w.leases = []
  locks : w.locks = []
  commands : w.commands = []
  written : w.written = []
  reports : w.reports = []

section Sample

/-- A resource is named after its provisioning key, with one character before it. -/
def sampleKey (ref : SandboxRef) : String := String.ofList (ref.externalId.toList.drop 1)

def sampleRef (mark : Char) (kind provisioningKey : String) : SandboxRef :=
  ⟨kind, String.ofList (mark :: provisioningKey.toList)⟩

theorem sampleKey_sampleRef (mark : Char) (kind provisioningKey : String) :
    sampleKey (sampleRef mark kind provisioningKey) = provisioningKey := by
  simp [sampleKey, sampleRef]

/-- A provider that marks the resources it creates, and does all it is asked for. Resources that
are `gone` are missing. -/
def sampleProviders (mark : Char) (gone : List SandboxRef) : Providers sampleKey where
  describe _ := ⟨false, false, false, false⟩
  create kind spec := sampleRef mark kind spec.provisioningKey
  list _ _ := []
  inspect ref := .ok ⟨ref, if gone.contains ref then .missing else .running, sampleKey ref, 0, []⟩
  destroy ref := .ok ⟨true, gone.contains ref, false⟩
  fileExists _ _ := false
  run _ _ := ⟨some 0, "", "", 1, false, false⟩
  create_key kind spec := ⟨rfl, sampleKey_sampleRef mark kind spec.provisioningKey⟩
  list_key _ _ ref href := by cases href

def sampleOptions : SandboxServiceOptions where
  config := {
    localEnabled := true
    allowedBuildImages := ["node:22"]
    readinessTimeoutMs := 60000
    leaseSeconds := 900
    autoDeleteSeconds := 1800
    orphanGraceMs := 300000
    heartbeatTimeoutMs := 45000
    commandTimeouts := ⟨180000, 60000, 120000⟩ }
  kinds := ["local"]
  production := false
  localeCompare a b := compareOfLessAndEq a b

/-- Workspace `1` has room for one build; its project `2` belongs to user `4`. -/
def sampleDirectory : Directory where
  workspace _ := some ⟨true, ⟨1, 1, 4, 4096, 8192, 65536⟩⟩
  project _ := some ⟨some 1, 4, 1, 1⟩
  branch _ := some ⟨true, 1, 2⟩
  member _ _ := false
  artifact _ _ _ := ⟨[], ⟨[], [], []⟩⟩

def sampleWorld : SandboxWorld sampleKey where
  clock := 0
  nextId := 6
  leases := []
  providers := sampleProviders 'a' []
  locks := []
  commands := []
  signals := []
  written := []
  reports := []

theorem sampleWorld_initial : sampleWorld.Initial := ⟨rfl, rfl, rfl, rfl, rfl⟩

/-- The first build of run `5`, on branch `3`. -/
def sampleInput : CreateBuildSandboxInput where
  workspaceId := 1
  projectId := 2
  branchId := 3
  requestedByUserId := 4
  runId := 5
  sourceArtifact := ⟨"artifact", .validationCandidate⟩
  provider := "local"
  image := "node:22"
  attempt := 1
  resources := ResourceProfile.object ⟨1, 1024, 2048⟩

abbrev sampleSandboxes : Machine sandboxApi (SandboxWorld sampleKey) SandboxCall SandboxResult
    (SandboxAct sampleKey) := sandboxes sampleOptions sampleDirectory

end Sample

end AppBuilder.Sandbox
