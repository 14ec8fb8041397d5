import AppBuilder.Sandbox.SandboxRepository
import Mathlib.Logic.Relation

/-! What an operation does to the stored leases, and what can have become of a lease. -/
namespace AppBuilder.Sandbox
open Agent Async
open Store (docId findById modifyById)

/-- The first state may become the second, by any number of transitions. -/
def SandboxLeaseState.Reaches : SandboxLeaseState → SandboxLeaseState → Prop :=
  Relation.ReflTransGen fun a b => b ∈ SANDBOX_ALLOWED_TRANSITIONS a

/-- The states in which the bound resource does not change any more. -/
def SandboxLeaseState.Settled (state : SandboxLeaseState) : Prop :=
  state ≠ .reserved ∧ state ≠ .provisioning

theorem SandboxLeaseState.Reaches.of_terminating {state : SandboxLeaseState}
    (h : Reaches .terminating state) : state = .terminating ∨ state = .terminated := by
  induction h with
  | refl => exact .inl rfl
  | tail _ step ih =>
    obtain rfl | rfl := ih
    · exact .inr (by simpa [SANDBOX_ALLOWED_TRANSITIONS] using step)
    · simp [SANDBOX_ALLOWED_TRANSITIONS] at step

theorem SandboxLeaseState.Reaches.of_terminated {state : SandboxLeaseState}
    (h : Reaches .terminated state) : state = .terminated := by
  induction h with
  | refl => rfl
  | tail _ step ih =>
    subst ih
    simp [SANDBOX_ALLOWED_TRANSITIONS] at step

theorem SandboxLeaseState.Reaches.settled {a b : SandboxLeaseState} (h : a.Reaches b)
    (ha : a.Settled) : b.Settled := by
  induction h with
  | refl => exact ha
  | @tail b c _ step ih =>
    cases b <;> cases c <;> simp_all [SANDBOX_ALLOWED_TRANSITIONS, Settled]

theorem SandboxLeaseState.Reaches.not_reserved {a b : SandboxLeaseState} (h : a.Reaches b)
    (ha : a ≠ .reserved) : b ≠ .reserved := by
  induction h with
  | refl => exact ha
  | @tail b c _ step ih =>
    rintro rfl
    cases b <;> simp [SANDBOX_ALLOWED_TRANSITIONS] at step

/-- `later` is what the lease has become. -/
structure SandboxLease.Evolves (lease later : SandboxLease) : Prop where
  id : later._id = lease._id
  record : later.toSandboxReservationRecord = lease.toSandboxReservationRecord
  state : lease.state.Reaches later.state
  externalId : lease.state.Settled → later.externalId = lease.externalId

/-- One write of the lease. -/
structure SandboxLease.Change (lease updated : SandboxLease) : Prop where
  id : updated._id = lease._id
  record : updated.toSandboxReservationRecord = lease.toSandboxReservationRecord
  state : updated.state = lease.state ∨ updated.state ∈ SANDBOX_ALLOWED_TRANSITIONS lease.state
  externalId : updated.externalId = lease.externalId ∨ lease.state = .provisioning

namespace SandboxLease

variable {a b c : SandboxLease}

theorem Evolves.refl (a : SandboxLease) : a.Evolves a := ⟨rfl, rfl, .refl, fun _ => rfl⟩

theorem Evolves.trans (h : a.Evolves b) (h' : b.Evolves c) : a.Evolves c where
  id := h'.id.trans h.id
  record := h'.record.trans h.record
  state := Relation.ReflTransGen.trans h.state h'.state
  externalId ha := (h'.externalId (h.state.settled ha)).trans (h.externalId ha)

theorem Change.evolves (h : a.Change b) : a.Evolves b where
  id := h.id
  record := h.record
  state := h.state.elim (fun he => he ▸ .refl) fun hs => Relation.ReflTransGen.single hs
  externalId ha := h.externalId.resolve_right ha.2

/-- The resource of a lease that is settled stays. -/
theorem Evolves.ref? (h : a.Evolves b) (ha : a.state.Settled) : b.ref? = a.ref? := by
  have hp : b.provider = a.provider := congrArg (·.provider) h.record
  rw [SandboxLease.ref?, SandboxLease.ref?, h.externalId ha, hp]

theorem ref?_provider {ref : SandboxRef} (h : a.ref? = some ref) : ref.provider = a.provider := by
  obtain ⟨externalId, -, rfl⟩ := Option.map_eq_some_iff.mp h
  rfl

end SandboxLease

/-- An update of one lease by its `_id`. -/
structure LeaseUpdate where
  leaseId : ObjectId
  accepts : SandboxLease → Bool
  patch : SandboxLease → SandboxLease

def SandboxOp.update? : SandboxOp → Option LeaseUpdate
  | .transition leaseId source target set => some ⟨leaseId,
      fun lease => source.contains lease.state,
      fun lease => { set.apply lease with state := target }⟩
  | .bindExternalId leaseId ref => some ⟨leaseId,
      fun lease => lease.state == .provisioning && lease.provider == ref.provider &&
        lease.externalId == none,
      fun lease => { lease with externalId := some ref.externalId }⟩
  | .clearExternalId leaseId ref => some ⟨leaseId,
      fun lease => lease.state == .provisioning && lease.ref? == some ref,
      fun lease => { lease with externalId := none }⟩
  | .claimProvisioning leaseId expectedUpdatedAt claimedAt => some ⟨leaseId,
      fun lease => lease.state == .provisioning && lease.updatedAt == expectedUpdatedAt,
      fun lease => { lease with lastHeartbeatAt := some claimedAt }⟩
  | .heartbeatRunning leaseId ref heartbeatAt => some ⟨leaseId,
      fun lease => lease.state == .running && lease.ref? == some ref,
      fun lease => { lease with lastHeartbeatAt := some heartbeatAt }⟩
  | .claimStaleRunning leaseId ref heartbeatCutoff => some ⟨leaseId,
      fun lease => lease.state == .running && lease.ref? == some ref &&
        lease.lastHeartbeatAt.any fun (heartbeatAt : Time) => (heartbeatAt : ℤ) ≤ heartbeatCutoff,
      fun lease => { lease with state := .terminating }⟩
  | _ => none

/-- The transitions of the operation are allowed ones. -/
def SandboxOp.Allowed : SandboxOp → Prop
  | .transition _ source target _ => ∀ state ∈ source, target ∈ SANDBOX_ALLOWED_TRANSITIONS state
  | _ => True

theorem SandboxOp.update_change {op : SandboxOp} {u : LeaseUpdate} (hu : op.update? = some u)
    (hop : op.Allowed) {lease : SandboxLease} (h : u.accepts lease = true) (updatedAt : Time) :
    lease.Change { u.patch lease with updatedAt } := by
  cases op with
  | transition leaseId source target set =>
    cases hu
    exact ⟨rfl, rfl, .inr (hop _ (by simpa using h)), .inl rfl⟩
  | bindExternalId leaseId ref =>
    cases hu
    simp only [Bool.and_eq_true, beq_iff_eq] at h
    exact ⟨rfl, rfl, .inl rfl, .inr h.1.1⟩
  | clearExternalId leaseId ref =>
    cases hu
    simp only [Bool.and_eq_true, beq_iff_eq] at h
    exact ⟨rfl, rfl, .inl rfl, .inr h.1⟩
  | claimProvisioning leaseId expectedUpdatedAt claimedAt =>
    cases hu
    exact ⟨rfl, rfl, .inl rfl, .inl rfl⟩
  | heartbeatRunning leaseId ref heartbeatAt =>
    cases hu
    exact ⟨rfl, rfl, .inl rfl, .inl rfl⟩
  | claimStaleRunning leaseId ref heartbeatCutoff =>
    cases hu
    simp only [Bool.and_eq_true, beq_iff_eq] at h
    exact ⟨rfl, rfl, .inr (by simp [h.1.1, SANDBOX_ALLOWED_TRANSITIONS]), .inl rfl⟩
  | _ => cases hu

/-- An update writes neither the `_id` nor the reservation. -/
theorem SandboxOp.update_record {op : SandboxOp} {u : LeaseUpdate} (hu : op.update? = some u)
    (lease : SandboxLease) (updatedAt : Time) :
    { u.patch lease with updatedAt }._id = lease._id ∧
      { u.patch lease with updatedAt }.toSandboxReservationRecord =
        lease.toSandboxReservationRecord := by
  cases op <;> cases hu <;> exact ⟨rfl, rfl⟩

namespace SandboxWorld

variable {key : SandboxRef → String} {w w' : SandboxWorld key}

/-- What `updateLease` answers and stores. -/
inductive Updated (w : SandboxWorld key) (u : LeaseUpdate) :
    Except Failure (Option SandboxLease) × SandboxWorld key → Prop
  | refused (h : ∀ lease, w.lease? u.leaseId = some lease → u.accepts lease = false) :
    Updated w u (.ok none, w)
  | collided : Updated w u (.error .duplicateKey, w)
  | replaced (lease : SandboxLease) (stored : w.lease? u.leaseId = some lease)
      (accepted : u.accepts lease = true)
      (admitted : w.admits { u.patch lease with updatedAt := w.clock } = true) :
    Updated w u (.ok (some { u.patch lease with updatedAt := w.clock }), { w with
      leases := modifyById w.leases u.leaseId fun _ =>
        { u.patch lease with updatedAt := w.clock } })

theorem updateLease_updated (w : SandboxWorld key) (u : LeaseUpdate) :
    w.Updated u (w.updateLease u.leaseId u.accepts u.patch) := by
  rw [updateLease]
  cases hl : w.lease? u.leaseId with
  | none => exact .refused fun lease h => by simp [hl] at h
  | some lease =>
    dsimp only
    split_ifs with ha hadm
    · exact .replaced lease hl ha hadm
    · exact .collided
    · refine .refused fun other h => ?_
      cases Option.some.inj (hl.symm.trans h)
      simpa using ha

/-- An update that matches nothing changes nothing. -/
theorem updateLease_none {leaseId : ObjectId} {accepts : SandboxLease → Bool}
    {patch : SandboxLease → SandboxLease}
    (h : (w.updateLease leaseId accepts patch).1 = .ok none) :
    (w.updateLease leaseId accepts patch).2 = w ∧
      ∀ lease, w.lease? leaseId = some lease → accepts lease = false := by
  have hu := w.updateLease_updated ⟨leaseId, accepts, patch⟩
  simp only at hu
  cases hr : w.updateLease leaseId accepts patch with
  | mk r w' =>
    rw [hr] at h hu
    cases hu with
    | refused hno => exact ⟨rfl, hno⟩
    | collided => cases h
    | replaced => cases h

/-- `lease` is replaced by `updated`. -/
structure Replaces (w w' : SandboxWorld key) (lease updated : SandboxLease) : Prop where
  stored : w.lease? lease._id = some lease
  admitted : w.admits updated = true
  leases : w'.leases = modifyById w.leases lease._id fun _ => updated
  nextId : w'.nextId = w.nextId

/-- What an operation does to the leases. -/
inductive LeaseEffect (op : SandboxOp) (w w' : SandboxWorld key) : Prop
  | unchanged (leases : w'.leases = w.leases) (nextId : w'.nextId = w.nextId)
  | created (record : SandboxReservationRecord) (hop : op = .createLease record)
      (valid : record.valid = true)
      (admitted : w.admits (w.reservedLease record) = true)
      (leases : w'.leases = w.leases ++ [w.reservedLease record])
      (nextId : w'.nextId = w.nextId + 1)
  | replaced (u : LeaseUpdate) (hop : op.update? = some u) (lease : SandboxLease)
      (leaseId : lease._id = u.leaseId) (accepted : u.accepts lease = true)
      (replaces : w.Replaces w' lease { u.patch lease with updatedAt := w.clock })

variable (directory : Directory) (t : ThreadId)

theorem exec_update {op : SandboxOp} {u : LeaseUpdate} (h : op.update? = some u)
    (w : SandboxWorld key) :
    (w.exec directory t op).2 = (w.updateLease u.leaseId u.accepts u.patch).2 := by
  cases op <;> cases h <;> rfl

theorem exec_leases {op : SandboxOp} (hu : op.update? = none)
    (hc : ∀ record, op ≠ .createLease record) (w : SandboxWorld key) :
    (w.exec directory t op).2.leases = w.leases ∧ (w.exec directory t op).2.nextId = w.nextId := by
  cases op with
  | createLease record => exact absurd rfl (hc record)
  | transition | bindExternalId | clearExternalId | claimProvisioning | heartbeatRunning
  | claimStaleRunning => cases hu
  | lock workspaceId =>
    simp only [exec]
    split_ifs <;> exact ⟨rfl, rfl⟩
  | assertHeld workspaceId =>
    simp only [exec]
    split_ifs <;> exact ⟨rfl, rfl⟩
  | inspect ref =>
    simp only [exec]
    split <;> exact ⟨rfl, rfl⟩
  | destroy ref =>
    simp only [exec]
    split <;> exact ⟨rfl, rfl⟩
  | beginHeartbeat commandId =>
    simp only [exec]
    split_ifs <;> exact ⟨rfl, rfl⟩
  | _ => exact ⟨rfl, rfl⟩

theorem exec_effect (op : SandboxOp) (w : SandboxWorld key) :
    w.LeaseEffect op (w.exec directory t op).2 := by
  cases hu : op.update? with
  | some u =>
    rw [exec_update directory t hu]
    have h := w.updateLease_updated u
    cases hr : w.updateLease u.leaseId u.accepts u.patch with
    | mk r w' =>
      rw [hr] at h
      cases h with
      | refused | collided => exact .unchanged rfl rfl
      | replaced lease stored accepted admitted =>
        have hid : lease._id = u.leaseId := Store.docId_of_findById stored
        exact .replaced u hu lease hid accepted ⟨hid ▸ stored, admitted, hid ▸ rfl, rfl⟩
  | none =>
    by_cases hc : ∃ record, op = .createLease record
    · obtain ⟨record, rfl⟩ := hc
      simp only [exec, createLease]
      split_ifs with hvalid hadm
      · exact .unchanged rfl rfl
      · exact .created record rfl (by simpa using hvalid) hadm rfl rfl
      · exact .unchanged rfl rfl
    · have h := exec_leases directory t hu (fun record he => hc ⟨record, he⟩) w
      exact .unchanged h.1 h.2

end SandboxWorld

end AppBuilder.Sandbox
