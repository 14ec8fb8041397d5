import Mathlib.Logic.Basic

/-! The errors of `sandbox/errors.ts`, and what else a sandbox call may throw. -/
namespace AppBuilder.Sandbox

inductive SandboxErrorCode where
  | providerUnavailable
  | schedulerUnavailable
  | capabilityMissing
  | quotaExceeded
  | branchBusy
  | notFound
  | invalidState
  | sourceUnavailable
  | provisionFailed
  | notReady
  | commandFailed
  | commandTimeout
  | outputLimit
  | lost
  | policyDenied
  | ownershipMismatch
  deriving DecidableEq, Repr

inductive SandboxCreateOutcome where
  | notCreated
  | unknown
  deriving DecidableEq, Repr

/-- `outcome` is present in a `SandboxCreateError`. -/
structure SandboxError where
  code : SandboxErrorCode
  message : String
  retryable : Bool := false
  outcome : Option SandboxCreateOutcome := none
  deriving DecidableEq, Repr

/-- `duplicateKey` is the database's error 11000; `other` is any error that is not a
`SandboxError`. -/
inductive Failure where
  | sandbox (error : SandboxError)
  | duplicateKey
  | other
  deriving DecidableEq, Repr

def Failure.isSandboxError : Failure → Bool
  | .sandbox _ => true
  | .duplicateKey | .other => false

/-- The error is a `SandboxError` with this code. -/
def Failure.hasCode (code : SandboxErrorCode) : Failure → Bool
  | .sandbox error => error.code == code
  | .duplicateKey | .other => false

end AppBuilder.Sandbox
