import AppBuilder.Sandbox.LeaseLaws
import Mathlib.Data.List.Nodup

/-! What holds of the stored leases at all times: their `_id`s and what the unique indexes cover
are distinct, and a bound resource belongs to the provisioning key of its lease. -/
namespace AppBuilder.Sandbox
open Agent Async
open Store (docId findById modifyById)

namespace SandboxWorld

variable {key : SandboxRef → String} {w w' : SandboxWorld key} {lease other : SandboxLease}

theorem collide_comm (a b : SandboxLease) : collide a b = collide b a := by
  have hs : (a.ref?.isSome && a.ref? == b.ref?) = (b.ref?.isSome && b.ref? == a.ref?) := by
    cases ha : a.ref? <;> cases hb : b.ref? <;> simp [beq_eq_decide, eq_comm]
  rw [collide, collide, hs, Bool.beq_comm (a := a.provisioningKey),
    Bool.beq_comm (a := a.branchId)]
  ac_rfl

/-- The resource of a lease is one of its provisioning key, and it has none while it is reserved. -/
def Binds (key : SandboxRef → String) (lease : SandboxLease) : Prop :=
  ∀ ref, lease.ref? = some ref → lease.state ≠ .reserved ∧ key ref = lease.provisioningKey

structure WellFormed (w : SandboxWorld key) : Prop where
  fresh : ∀ lease ∈ w.leases, lease._id < w.nextId
  ids : (w.leases.map fun lease => lease._id).Nodup
  apart : ∀ a ∈ w.leases, ∀ b ∈ w.leases, a._id ≠ b._id → collide a b = false
  binds : ∀ lease ∈ w.leases, Binds key lease

theorem lease?_id {leaseId : ObjectId} (h : w.lease? leaseId = some lease) :
    lease._id = leaseId := Store.docId_of_findById h

theorem mem_of_lease? {leaseId : ObjectId} (h : w.lease? leaseId = some lease) :
    lease ∈ w.leases := Store.mem_of_findById h

theorem WellFormed.lease?_of_mem (h : w.WellFormed) (hm : lease ∈ w.leases) :
    w.lease? lease._id = some lease := Store.findById_of_mem h.ids hm

/-- Leases that a unique index does not tell apart are one lease. -/
theorem WellFormed.eq_of_collide (h : w.WellFormed) (hl : lease ∈ w.leases)
    (ho : other ∈ w.leases) (hc : collide lease other = true) : lease = other := by
  by_contra hne
  have hid : lease._id ≠ other._id := by
    intro he
    have h1 := h.lease?_of_mem hl
    rw [he, h.lease?_of_mem ho] at h1
    exact hne (Option.some.inj h1).symm
  rw [h.apart lease hl other ho hid] at hc
  cases hc

theorem WellFormed.eq_of_ref? (h : w.WellFormed) (hl : lease ∈ w.leases) (ho : other ∈ w.leases)
    {ref : SandboxRef} (hr : lease.ref? = some ref) (hr' : other.ref? = some ref) :
    lease = other := h.eq_of_collide hl ho (by simp [collide, hr, hr'])

theorem WellFormed.eq_of_provisioningKey (h : w.WellFormed) (hl : lease ∈ w.leases)
    (ho : other ∈ w.leases) (hk : lease.provisioningKey = other.provisioningKey) :
    lease = other := h.eq_of_collide hl ho (by simp [collide, hk])

/-- The only lease that may be bound to a resource is the one with the resource's key. -/
theorem WellFormed.eq_of_key (h : w.WellFormed) (hl : lease ∈ w.leases) (ho : other ∈ w.leases)
    {ref : SandboxRef} (hk : key ref = lease.provisioningKey) (hr : other.ref? = some ref) :
    lease = other :=
  h.eq_of_provisioningKey hl ho (hk.symm.trans (h.binds other ho ref hr).2)

theorem admits_iff : w.admits lease = true ↔
    ∀ other ∈ w.leases, other._id ≠ lease._id → collide other lease = false := by
  simp only [admits, List.all_eq_true, Bool.or_eq_true, beq_iff_eq, Bool.not_eq_true']
  exact forall₂_congr fun other _ => by rw [Classical.or_iff_not_imp_left]

theorem Replaces.mem_leases {updated : SandboxLease} (h : w.Replaces w' lease updated) :
    other ∈ w'.leases ↔ other = updated ∨ other ∈ w.leases ∧ other._id ≠ lease._id := by
  have hm := mem_of_lease? h.stored
  rw [h.leases, modifyById, List.mem_map]
  constructor
  · rintro ⟨d, hd, rfl⟩
    by_cases hi : d._id = lease._id
    · simp [docId, hi]
    · simp [docId, hi, hd]
  · rintro (rfl | ⟨ho, hne⟩)
    · exact ⟨lease, hm, by simp [docId]⟩
    · exact ⟨other, ho, by simp [docId, hne]⟩

theorem Replaces.lease?_eq {updated : SandboxLease} (h : w.Replaces w' lease updated)
    (hid : updated._id = lease._id) (leaseId : ObjectId) :
    w'.lease? leaseId = if leaseId = lease._id then some updated else w.lease? leaseId := by
  rw [lease?, h.leases, Store.findById_modifyById_of _ _ _ _ fun _ _ => hid]
  split_ifs with he
  · rw [he, ← lease?, h.stored]
    rfl
  · rfl

/-- The part of it that no update can break, whatever it writes. -/
structure Indexed (w : SandboxWorld key) : Prop where
  fresh : ∀ lease ∈ w.leases, lease._id < w.nextId
  ids : (w.leases.map fun lease => lease._id).Nodup
  apart : ∀ a ∈ w.leases, ∀ b ∈ w.leases, a._id ≠ b._id → collide a b = false

theorem WellFormed.indexed (h : w.WellFormed) : w.Indexed := ⟨h.fresh, h.ids, h.apart⟩

theorem Indexed.lease?_of_mem (h : w.Indexed) (hm : lease ∈ w.leases) :
    w.lease? lease._id = some lease := Store.findById_of_mem h.ids hm

theorem Indexed.eq_of_provisioningKey (h : w.Indexed) (hl : lease ∈ w.leases)
    (ho : other ∈ w.leases) (hk : lease.provisioningKey = other.provisioningKey) :
    lease = other := by
  by_contra hne
  have hid : lease._id ≠ other._id := by
    intro he
    have h1 := h.lease?_of_mem hl
    rw [he, h.lease?_of_mem ho] at h1
    exact hne (Option.some.inj h1).symm
  have hc := h.apart lease hl other ho hid
  simp [collide, hk] at hc

theorem Replaces.indexed {updated : SandboxLease} (h : w.Replaces w' lease updated)
    (hid : updated._id = lease._id) (hw : w.Indexed) : w'.Indexed where
  fresh other ho := by
    rw [h.nextId]
    rcases h.mem_leases.mp ho with rfl | ⟨ho, -⟩
    · rw [hid]
      exact hw.fresh _ (mem_of_lease? h.stored)
    · exact hw.fresh _ ho
  ids := by
    have hmap : (w'.leases.map fun l => l._id) = w.leases.map fun l => l._id := by
      rw [h.leases, modifyById, List.map_map]
      refine List.map_congr_left fun d _ => ?_
      by_cases hd : d._id = lease._id <;> simp [docId, hd, hid]
    rw [hmap]
    exact hw.ids
  apart a ha b hb hne := by
    have hadm := admits_iff.mp h.admitted
    rcases h.mem_leases.mp ha with rfl | ⟨ha, hai⟩
    · rcases h.mem_leases.mp hb with rfl | ⟨hb, -⟩
      · exact absurd rfl hne
      · rw [collide_comm]
        exact hadm b hb hne.symm
    · rcases h.mem_leases.mp hb with rfl | ⟨hb, -⟩
      · exact hadm a ha hne
      · exact hw.apart a ha b hb hne

theorem Replaces.wellFormed {updated : SandboxLease} (h : w.Replaces w' lease updated)
    (hid : updated._id = lease._id) (hw : w.WellFormed) (hbinds : Binds key updated) :
    w'.WellFormed := by
  have hi := h.indexed hid hw.indexed
  refine ⟨hi.fresh, hi.ids, hi.apart, fun other ho => ?_⟩
  rcases h.mem_leases.mp ho with rfl | ⟨ho, -⟩
  · exact hbinds
  · exact hw.binds other ho

/-- What a new lease adds. -/
theorem Indexed.created {record : SandboxReservationRecord} (hw : w.Indexed)
    (admitted : w.admits (w.reservedLease record) = true)
    (leases : w'.leases = w.leases ++ [w.reservedLease record])
    (nextId : w'.nextId = w.nextId + 1) : w'.Indexed where
  fresh other ho := by
    rw [leases, List.mem_append, List.mem_singleton] at ho
    rw [nextId]
    rcases ho with ho | rfl
    · exact Nat.lt_succ_of_lt (hw.fresh other ho)
    · exact Nat.lt_succ_self _
  ids := by
    rw [leases, List.map_append, List.nodup_append]
    refine ⟨hw.ids, by simp, ?_⟩
    intro a ha b hb
    obtain ⟨d, hd, rfl⟩ := List.mem_map.mp ha
    have hlt := hw.fresh d hd
    rw [List.map_singleton, List.mem_singleton] at hb
    subst hb
    exact Nat.ne_of_lt hlt
  apart a ha b hb hne := by
    have hadm := admits_iff.mp admitted
    rw [leases, List.mem_append, List.mem_singleton] at ha hb
    rcases ha with ha | rfl
    · rcases hb with hb | rfl
      · exact hw.apart a ha b hb hne
      · exact hadm a ha hne
    · rcases hb with hb | rfl
      · rw [collide_comm]
        exact hadm b hb hne.symm
      · exact absurd rfl hne

theorem WellFormed.created {record : SandboxReservationRecord} (hw : w.WellFormed)
    (admitted : w.admits (w.reservedLease record) = true)
    (leases : w'.leases = w.leases ++ [w.reservedLease record])
    (nextId : w'.nextId = w.nextId + 1) : w'.WellFormed := by
  have hi := hw.indexed.created admitted leases nextId
  refine ⟨hi.fresh, hi.ids, hi.apart, fun other ho => ?_⟩
  rw [leases, List.mem_append, List.mem_singleton] at ho
  rcases ho with ho | rfl
  · exact hw.binds other ho
  · rintro ref hr
    cases hr

/-- The lease was stored once, and its present version has evolved from it. -/
def Seen (w : SandboxWorld key) (lease : SandboxLease) : Prop :=
  ∃ later, w.lease? lease._id = some later ∧ lease.Evolves later

theorem Seen.of_lease? {leaseId : ObjectId} (h : w.lease? leaseId = some lease) : w.Seen lease :=
  ⟨lease, lease?_id h ▸ h, .refl lease⟩

theorem WellFormed.seen (h : w.WellFormed) (hm : lease ∈ w.leases) : w.Seen lease :=
  .of_lease? (h.lease?_of_mem hm)

/-- Every stored lease is still there later. -/
def Keeps (w w' : SandboxWorld key) : Prop :=
  ∀ leaseId lease, w.lease? leaseId = some lease →
    ∃ later, w'.lease? leaseId = some later ∧ lease.Evolves later

theorem Keeps.seen (h : w.Keeps w') (hs : w.Seen lease) : w'.Seen lease := by
  obtain ⟨later, hl, he⟩ := hs
  obtain ⟨latest, hl', he'⟩ := h _ later hl
  exact ⟨latest, hl', he.trans he'⟩

theorem Keeps.of_leases (h : w'.leases = w.leases) : w.Keeps w' := by
  intro leaseId lease hl
  exact ⟨lease, by rw [lease?, h]; exact hl, .refl lease⟩

theorem LeaseEffect.keeps {op : SandboxOp} (h : w.LeaseEffect op w') (hop : op.Allowed) :
    w.Keeps w' := by
  cases h with
  | unchanged leases nextId => exact .of_leases leases
  | created record _ _ admitted leases nextId =>
    intro leaseId lease hl
    refine ⟨lease, ?_, .refl lease⟩
    rw [lease?, leases, Store.findById_append, ← lease?, hl, Option.some_or]
  | replaced u hu lease leaseId accepted replaces =>
    have hc := SandboxOp.update_change hu hop accepted w.clock
    intro id other hl
    rw [replaces.lease?_eq hc.id]
    split_ifs with he
    · subst he
      cases Option.some.inj (replaces.stored.symm.trans hl)
      exact ⟨_, rfl, hc.evolves⟩
    · exact ⟨other, hl, .refl other⟩

end SandboxWorld

end AppBuilder.Sandbox
