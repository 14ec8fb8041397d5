import AppBuilder.Async.Extension
import AppBuilder.Sandbox.LeaseInvariant

/-! Every write of a lease's state is an allowed transition, and a lease that was taken over as
stale stays taken over. -/
namespace AppBuilder.Sandbox
open Agent Async

variable {options : SandboxServiceOptions} {directory : Directory} {key : SandboxRef → String}

namespace SandboxWorld

variable {w w' : SandboxWorld key}

/-- New leases are reserved, and stored ones move along `SANDBOX_ALLOWED_TRANSITIONS`. -/
structure WritesAllowed (w w' : SandboxWorld key) : Prop where
  stored : ∀ leaseId old, w.lease? leaseId = some old → ∃ new, w'.lease? leaseId = some new ∧
    (new.state = old.state ∨ new.state ∈ SANDBOX_ALLOWED_TRANSITIONS old.state)
  fresh : ∀ leaseId new, w.lease? leaseId = none → w'.lease? leaseId = some new →
    new.state = .reserved

theorem WritesAllowed.of_leases (h : w'.leases = w.leases) : w.WritesAllowed w' where
  stored leaseId old hl := ⟨old, by rw [lease?, h]; exact hl, .inl rfl⟩
  fresh leaseId new hl hl' := by
    rw [lease?, h, ← lease?, hl] at hl'
    cases hl'

variable (directory) in
theorem exec_writesAllowed (t : ThreadId) {op : SandboxOp} (hop : op.Allowed)
    (w : SandboxWorld key) : w.WritesAllowed (w.exec directory t op).2 := by
  cases exec_effect directory t op w with
  | unchanged leases nextId => exact .of_leases leases
  | created record _ _ admitted leases nextId =>
    constructor
    · intro leaseId old hl
      refine ⟨old, ?_, .inl rfl⟩
      rw [lease?, leases, Store.findById_append, ← lease?, hl, Option.some_or]
    · intro leaseId new hl hl'
      rw [lease?, leases, Store.findById_append, ← lease?, hl, Option.none_or] at hl'
      split_ifs at hl' with he
      cases hl'
      rfl
  | replaced u hu lease leaseId accepted replaces =>
    have hc := SandboxOp.update_change hu hop accepted w.clock
    constructor
    · intro id old hl
      rw [replaces.lease?_eq hc.id]
      split_ifs with he
      · subst he
        cases replaces.stored.symm.trans hl
        exact ⟨_, rfl, hc.state⟩
      · exact ⟨old, hl, .inl rfl⟩
    · intro id new hl hl'
      rw [replaces.lease?_eq hc.id] at hl'
      split_ifs at hl' with he
      · subst he
        rw [replaces.stored] at hl
        cases hl
      · rw [hl] at hl'
        cases hl'

/-- The lease has been given up, and is not given back. -/
def GivenUp (w : SandboxWorld key) (leaseId : ObjectId) : Prop :=
  ∃ lease, w.lease? leaseId = some lease ∧
    (lease.state = .terminating ∨ lease.state = .terminated)

theorem GivenUp.keeps {leaseId : ObjectId} (h : w.GivenUp leaseId) (hk : w.Keeps w') :
    w'.GivenUp leaseId := by
  obtain ⟨lease, hl, hstate⟩ := h
  obtain ⟨later, hl', hev⟩ := hk leaseId lease hl
  refine ⟨later, hl', ?_⟩
  rcases hstate with hs | hs
  · exact (hs ▸ hev.state).of_terminating
  · exact .inr (hs ▸ hev.state).of_terminated

end SandboxWorld

/-- The operations by which an owner renews its hold on a lease. -/
def SandboxOp.renews : SandboxOp → Bool
  | .heartbeatRunning .. | .bindExternalId .. | .clearExternalId .. | .claimProvisioning .. => true
  | _ => false

/-- The update of the operation finds `lease`. -/
def SandboxOp.Finds (op : SandboxOp) (lease : SandboxLease) : Prop :=
  ∃ u, op.update? = some u ∧ u.leaseId = lease._id ∧ u.accepts lease = true

/-- A renewal finds only leases that are provisioning or running. -/
theorem SandboxOp.Finds.state {op : SandboxOp} {lease : SandboxLease} (hf : op.Finds lease)
    (hop : op.renews = true) : lease.state = .provisioning ∨ lease.state = .running := by
  obtain ⟨u, hu, -, accepted⟩ := hf
  cases op with
  | heartbeatRunning leaseId ref heartbeatAt =>
    cases hu
    simp only [Bool.and_eq_true, beq_iff_eq] at accepted
    exact .inr accepted.1
  | bindExternalId leaseId ref =>
    cases hu
    simp only [Bool.and_eq_true, beq_iff_eq] at accepted
    exact .inl accepted.1.1
  | clearExternalId leaseId ref =>
    cases hu
    simp only [Bool.and_eq_true, beq_iff_eq] at accepted
    exact .inl accepted.1
  | claimProvisioning leaseId expectedUpdatedAt claimedAt =>
    cases hu
    simp only [Bool.and_eq_true, beq_iff_eq] at accepted
    exact .inl accepted.1
  | _ => cases hop

section Steps

variable (options : SandboxServiceOptions) (directory : Directory)

def WritesAllowed (c : Running key) (l : Step key) : Prop :=
  ∀ c', (sandboxes options directory).step c l = some c' → c.state.WritesAllowed c'.state

/-- The step claims the lease as stale, and so changes its state. -/
structure TakesOver (c : Running key) (l : Step key) (c' : Running key) (lease : SandboxLease) :
    Prop where
  step : (sandboxes options directory).step c l = some c'
  claims : ∃ ref heartbeatCutoff,
    c.applies l = some (.claimStaleRunning lease._id ref heartbeatCutoff)
  stored : c.state.lease? lease._id = some lease
  changed : ∀ new, c'.state.lease? lease._id = some new → new.state ≠ lease.state

/-- A lease that is taken over is running, and its stored heartbeat is as old as the timeout at
some time that has passed. -/
def TakesOverStale (c : Running key) (l : Step key) : Prop :=
  ∀ c' lease, TakesOver options directory c l c' lease → lease.state = .running ∧
    ∃ heartbeatAt now : Time, lease.lastHeartbeatAt = some heartbeatAt ∧ now ≤ c.state.clock ∧
      (heartbeatAt : ℤ) ≤ (now : ℤ) - options.config.heartbeatTimeoutMs

/-- No renewal of the lease succeeds in the step. -/
def NotRenewed (leaseId : ObjectId) (c : Running key) (l : Step key) : Prop :=
  ∀ op lease, c.applies l = some op → op.renews = true → c.state.lease? leaseId = some lease →
    ¬ op.Finds lease

variable {options directory} {c c' : Running key} {l : Step key}

theorem writesAllowed_step (hc : (leaseDiscipline options directory key).Holds c) :
    WritesAllowed options directory c l := by
  intro c' hstep
  cases worldStep_of_step hc hstep with
  | performs t o op h hl happlies hrecalls hconduct hw =>
    rw [hw]
    exact SandboxWorld.exec_writesAllowed directory t hconduct.allowed c.state
  | untouched leases clock written reports => exact .of_leases leases

/-- A claim that changes its lease finds it running with an old heartbeat, and gives it up. -/
theorem TakesOver.spec (hc : (leaseDiscipline options directory key).Holds c)
    {lease : SandboxLease} (h : TakesOver options directory c l c' lease) :
    lease.state = .running ∧ (∃ heartbeatAt now : Time, lease.lastHeartbeatAt = some heartbeatAt ∧
      now ≤ c.state.clock ∧ (heartbeatAt : ℤ) ≤ (now : ℤ) - options.config.heartbeatTimeoutMs) ∧
        c'.state.GivenUp lease._id := by
  obtain ⟨hstep, ⟨ref, heartbeatCutoff, hclaims⟩, hstored, hchanged⟩ := h
  cases worldStep_of_step hc hstep with
  | untouched leases clock written reports =>
    exact absurd rfl (hchanged lease (by rw [SandboxWorld.lease?, leases]; exact hstored))
  | performs t o op h hl happlies hrecalls hconduct hw =>
    cases happlies.symm.trans hclaims
    obtain ⟨now, hnow, rfl⟩ := hconduct
    have heffect := SandboxWorld.exec_effect directory t
      (.claimStaleRunning lease._id ref ((now : ℤ) - options.config.heartbeatTimeoutMs)) c.state
    rw [← hw] at heffect
    cases heffect with
    | unchanged leases nextId =>
      exact absurd rfl (hchanged lease (by rw [SandboxWorld.lease?, leases]; exact hstored))
    | created record hop => cases hop
    | replaced u hu old leaseId accepted replaces =>
      cases hu
      have hid : old._id = lease._id := leaseId
      have hold := replaces.stored
      rw [hid, hstored] at hold
      cases hold
      simp only [Bool.and_eq_true, beq_iff_eq, Option.any_eq_true, decide_eq_true_eq] at accepted
      obtain ⟨⟨hrunning, -⟩, heartbeatAt, hb, hle⟩ := accepted
      have hnew := replaces.lease?_eq rfl lease._id
      rw [if_pos rfl] at hnew
      exact ⟨hrunning, ⟨heartbeatAt, now, hb, hrecalls.clock now hnow, hle⟩, _, hnew, .inl rfl⟩

/-- Nothing renews a lease that is given up. -/
theorem notRenewed_of_givenUp {leaseId : ObjectId} (h : c.state.GivenUp leaseId) :
    NotRenewed leaseId c l := by
  intro op lease _ hop hl hfinds
  obtain ⟨stored, hstored, hstate⟩ := h
  cases hstored.symm.trans hl
  rcases hfinds.state hop with hs | hs <;> rcases hstate with hs' | hs' <;>
    exact absurd (hs.symm.trans hs') (by decide)

end Steps

end AppBuilder.Sandbox
