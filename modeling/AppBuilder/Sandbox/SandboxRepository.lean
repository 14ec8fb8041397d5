import AppBuilder.Sandbox.World

/-! `SandboxRepository.ts`: the allowed transitions, and reservations that are made once. -/
namespace AppBuilder.Sandbox
open Agent Async

def SANDBOX_ALLOWED_TRANSITIONS : SandboxLeaseState → List SandboxLeaseState
  | .reserved => [.provisioning, .failed, .terminating]
  | .provisioning => [.ready, .failed, .terminating]
  | .ready => [.running, .lost, .terminating]
  | .running => [.lost, .terminating]
  | .terminating => [.terminated]
  | .terminated => []
  | .failed => [.terminating, .terminated]
  | .lost => [.terminating, .terminated]

def SandboxLeaseState.name : SandboxLeaseState → String
  | .reserved => "reserved"
  | .provisioning => "provisioning"
  | .ready => "ready"
  | .running => "running"
  | .terminating => "terminating"
  | .terminated => "terminated"
  | .failed => "failed"
  | .lost => "lost"

/-- What `sameReservation` compares: everything but the two times. -/
def canonicalReservation (record : SandboxReservationRecord) : SandboxReservationRecord :=
  { record with reservedAt := 0, expiresAt := 0 }

def sameReservation (existing : SandboxLease) (input : SandboxReservationRecord) : Bool :=
  canonicalReservation existing.toSandboxReservationRecord == canonicalReservation input

def reuseOrReject (existing : SandboxLease) (input : SandboxReservationRecord) :
    SandboxPromise SandboxLease :=
  if sameReservation existing input then return existing
  else .throw (.sandbox ⟨.ownershipMismatch,
    "Provisioning key belongs to a different Sandbox reservation", false, none⟩)

def createReserved (input : SandboxReservationRecord) : SandboxPromise SandboxLease := do
  let existing : Option SandboxLease ← perform (.findByProvisioningKey input.provisioningKey)
  match existing with
  | some existing => reuseOrReject existing input
  | none =>
    (perform (.createLease input)).tryCatch fun error => do
      if error ≠ .duplicateKey then .throw error
      else
        let concurrent : Option SandboxLease ←
          perform (.findByProvisioningKey input.provisioningKey)
        match concurrent with
        | none => .throw error
        | some concurrent => reuseOrReject concurrent input

def transition (leaseId : ObjectId) (source : List SandboxLeaseState) (target : SandboxLeaseState)
    (set : LeasePatch := {}) : SandboxPromise (Option SandboxLease) :=
  if source = [] ∨ ∃ state ∈ source, target ∉ SANDBOX_ALLOWED_TRANSITIONS state then
    .throw (.sandbox ⟨.invalidState, "Invalid Sandbox transition to " ++ target.name, false, none⟩)
  else perform (.transition leaseId source target set)

end AppBuilder.Sandbox
