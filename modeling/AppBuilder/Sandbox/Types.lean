import AppBuilder.Agent.Types
import AppBuilder.Sandbox.Errors
import Mathlib.Data.Int.Notation
import Mathlib.Data.Rat.Init

/-! The data of `sandbox/types.ts` and the lease document. An `ObjectId` stands for its
hexadecimal text as well. -/
namespace AppBuilder.Sandbox
open Agent

inductive SandboxPurpose where
  | build
  | preview
  deriving DecidableEq, Repr

def SandboxPurpose.name : SandboxPurpose → String
  | .build => "build"
  | .preview => "preview"

inductive SandboxLeaseState where
  | reserved
  | provisioning
  | ready
  | running
  | terminating
  | terminated
  | failed
  | lost
  deriving DecidableEq, Repr

structure ResourceProfile where
  cpu : ℚ
  memoryMiB : ℕ
  diskMiB : ℕ
  deriving DecidableEq, Repr

inductive ResourceKey where
  | cpu
  | memoryMiB
  | diskMiB
  deriving DecidableEq, Repr

/-- A resource profile as an object, which lists its three properties in some order. -/
structure ResourceObject extends ResourceProfile where
  keys : List ResourceKey
  complete : keys.Perm [.cpu, .memoryMiB, .diskMiB]
  deriving DecidableEq, Repr

/-- The order of the schema. -/
def ResourceProfile.object (profile : ResourceProfile) : ResourceObject :=
  { profile with keys := [.cpu, .memoryMiB, .diskMiB], complete := .refl _ }

/-- An optional property of an object: not there, there without a value, or with one. -/
inductive Property (α : Type) where
  | absent
  | undefined
  | value (a : α)
  deriving DecidableEq, Repr

def Property.get? {α : Type} : Property α → Option α
  | .value a => some a
  | .absent | .undefined => none

/-- `{ key: value }` with a value that may be `undefined`. -/
def Property.explicit {α : Type} : Option α → Property α
  | some a => .value a
  | none => .undefined

structure SandboxOwnership where
  workspaceId : ObjectId
  projectId : ObjectId
  branchId : ObjectId
  runId : Property ObjectId
  snapshotId : Property ObjectId
  purpose : SandboxPurpose
  deriving DecidableEq, Repr

inductive NetworkAction where
  | deny
  | allow
  deriving DecidableEq, Repr

def NetworkAction.name : NetworkAction → String
  | .deny => "deny"
  | .allow => "allow"

structure NetworkPolicy where
  defaultAction : NetworkAction
  allowedDomains : List String
  allowedCidrs : List String
  deriving DecidableEq, Repr

structure SandboxRuntime where
  image : String
  workingDirectory : String
  deriving DecidableEq, Repr

structure SandboxLifecycle where
  leaseSeconds : ℕ
  autoStopSeconds : Property ℕ
  autoDeleteSeconds : ℕ
  deriving DecidableEq, Repr

structure SandboxSpec where
  provisioningKey : String
  ownership : SandboxOwnership
  runtime : SandboxRuntime
  resources : ResourceObject
  networkPolicy : NetworkPolicy
  lifecycle : SandboxLifecycle
  labels : List (String × String)
  deriving DecidableEq, Repr

structure SandboxRef where
  provider : String
  externalId : String
  deriving DecidableEq, Repr

inductive SandboxStatus where
  | creating
  | ready
  | running
  | stopped
  | missing
  | error
  deriving DecidableEq, Repr

structure SandboxInspection where
  ref : SandboxRef
  status : SandboxStatus
  provisioningKey : String
  createdAt : Time
  labels : List (String × String)
  deriving DecidableEq, Repr

structure SandboxListFilter where
  provisioningKey : Option String := none
  labels : List (String × String)
  deriving DecidableEq, Repr

structure SandboxDestroyReceipt where
  accepted : Bool
  missing : Bool
  pending : Bool
  deriving DecidableEq, Repr

structure SandboxCommand where
  executable : String
  args : List String
  cwd : String
  env : List (String × String)
  timeoutMs : ℕ
  maxOutputBytes : ℕ
  deriving DecidableEq, Repr

structure SandboxCommandResult where
  exitCode : Option ℤ
  stdout : String
  stderr : String
  durationMs : ℕ
  timedOut : Bool
  outputTruncated : Bool
  deriving DecidableEq, Repr

structure SandboxCapabilities where
  preview : Bool
  networkPolicy : Bool
  checkpoints : Bool
  reconnectAcrossProcessRestart : Bool
  deriving DecidableEq, Repr

/-- A file as it is uploaded. -/
structure SandboxFile where
  path : String
  content : String
  deriving DecidableEq, Repr

inductive ArtifactKind where
  | projectSnapshot
  | validationCandidate
  deriving DecidableEq, Repr

structure SourceArtifact where
  artifactId : String
  kind : ArtifactKind
  deriving DecidableEq, Repr

/-- The stored part of a `SandboxSpec`. -/
structure LeaseSpec where
  image : String
  workingDirectory : String
  networkPolicy : NetworkPolicy
  leaseSeconds : ℕ
  autoStopSeconds : Option ℕ
  autoDeleteSeconds : ℕ
  deriving DecidableEq, Repr

/-- What `createReserved` stores of a reservation. -/
structure SandboxReservationRecord where
  workspaceId : ObjectId
  projectId : ObjectId
  branchId : ObjectId
  requestedByUserId : ObjectId
  runId : Option ObjectId
  snapshotId : Option ObjectId
  sourceArtifact : SourceArtifact
  purpose : SandboxPurpose
  provider : String
  provisioningKey : String
  spec : LeaseSpec
  resourceProfile : ResourceProfile
  reservedAt : Time
  expiresAt : Time
  deriving DecidableEq, Repr

structure LeaseError where
  code : SandboxErrorCode
  message : String
  retryable : Bool
  deriving DecidableEq, Repr

structure SandboxLease extends SandboxReservationRecord where
  _id : ObjectId
  externalId : Option String
  state : SandboxLeaseState
  readyAt : Option Time
  lastHeartbeatAt : Option Time
  terminatedAt : Option Time
  error : Option LeaseError
  updatedAt : Time
  deriving DecidableEq, Repr

end AppBuilder.Sandbox
