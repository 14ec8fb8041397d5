import Mathlib.Algebra.Order.BigOperators.Group.Multiset
import Mathlib.Algebra.Order.Group.Defs
import Mathlib.Data.Nat.Cast.Order.Ring

/-! Quotas: meters over the collection of claims that are held, each with a limit. -/
namespace AppBuilder.Quota

variable {R M : Type*} [AddCommMonoid M]

/-- What one claim adds to the reading, and the highest reading that is allowed. -/
structure Meter (R M : Type*) where
  weight : R → M
  limit : M

namespace Meter

def used (m : Meter R M) (s : Multiset R) : M := (s.map m.weight).sum

variable (m : Meter R M)

@[simp] theorem used_zero : m.used 0 = 0 := rfl

@[simp] theorem used_cons (r : R) (s : Multiset R) : m.used (r ::ₘ s) = m.weight r + m.used s := by
  simp [used]

@[simp] theorem used_add (s u : Multiset R) : m.used (s + u) = m.used s + m.used u := by
  induction s using Multiset.induction with
  | empty => simp
  | cons r s ih => rw [Multiset.cons_add, used_cons, ih, used_cons, add_assoc]

section Limit

variable [LinearOrder M]

/-- A meter that reads nothing is within every limit. -/
def Within (m : Meter R M) (s : Multiset R) : Prop := m.used s ≤ max 0 m.limit

theorem within_zero : m.Within 0 := le_max_left _ _

variable {m} {r r' : R} {s u : Multiset R}

/-- A claim that the meter does not measure has room. -/
theorem Within.cons_of_weight_eq_zero (h : m.Within s) (hr : m.weight r = 0) :
    m.Within (r ::ₘ s) := by
  rw [Within, used_cons, hr, zero_add]
  exact h

theorem Within.cons_of_le (h : m.weight r + m.used s ≤ m.limit) : m.Within (r ::ₘ s) := by
  rw [Within, used_cons]
  exact h.trans (le_max_right _ _)

/-- Claims that are measured by different meters do not compete. -/
theorem Within.cons_cons (h : m.Within (r ::ₘ s)) (h' : m.Within (r' ::ₘ s))
    (hapart : m.weight r = 0 ∨ m.weight r' = 0) : m.Within (r ::ₘ r' ::ₘ s) := by
  rcases hapart with hr | hr
  · exact h'.cons_of_weight_eq_zero hr
  · rw [Multiset.cons_swap]
    exact h.cons_of_weight_eq_zero hr

/-- A meter with a positive reading is within its limit. -/
theorem Within.used_le (h : m.Within s) (hs : 0 < m.used s) : m.used s ≤ m.limit :=
  (le_max_iff.mp h).resolve_left hs.not_ge

theorem Within.used_le_of_nonneg (h : m.Within s) (hl : 0 ≤ m.limit) : m.used s ≤ m.limit :=
  h.trans (max_le hl le_rfl)

variable [IsOrderedAddMonoid M]

/-- Claims that go make room. -/
theorem Within.of_add (h : m.Within (s + u)) (hu : ∀ r ∈ u, 0 ≤ m.weight r) : m.Within s := by
  have hnonneg : 0 ≤ m.used u := by
    refine Multiset.sum_nonneg fun x hx => ?_
    obtain ⟨r, hr, rfl⟩ := Multiset.mem_map.mp hx
    exact hu r hr
  have hle : m.used s ≤ m.used (s + u) := by
    rw [used_add]
    exact le_add_of_nonneg_right hnonneg
  exact hle.trans h

theorem Within.of_cons (h : m.Within (r ::ₘ s)) (hr : 0 ≤ m.weight r) : m.Within s := by
  have h : m.Within (s + {r}) := by rwa [Multiset.add_comm, Multiset.singleton_add]
  exact h.of_add fun x hx => (Multiset.mem_singleton.mp hx) ▸ hr

theorem used_pos (hs : ∀ x ∈ s, 0 ≤ m.weight x) (hr : r ∈ s) (hpos : 0 < m.weight r) :
    0 < m.used s := by
  obtain ⟨u, rfl⟩ := Multiset.exists_cons_of_mem hr
  rw [used_cons]
  refine add_pos_of_pos_of_nonneg hpos (Multiset.sum_nonneg fun x hx => ?_)
  obtain ⟨y, hy, rfl⟩ := Multiset.mem_map.mp hx
  exact hs y (Multiset.mem_cons_of_mem hy)

end Limit

end Meter

section Measuring

variable (p : R → Prop) [DecidablePred p]

/-- The meter of an amount that only the claims with `p` have. -/
def Meter.measuring (amount : R → M) (limit : M) : Meter R M where
  weight r := if p r then amount r else 0
  limit := limit

theorem Meter.used_measuring (amount : R → M) (limit : M) (s : Multiset R) :
    (measuring p amount limit).used s = ((s.filter p).map amount).sum := by
  induction s using Multiset.induction with
  | empty => simp
  | cons r s ih =>
    rw [used_cons, ih]
    by_cases hr : p r <;> simp [measuring, hr]

theorem Meter.measuring_weight {amount : R → M} {limit : M} {r : R} (h : p r) :
    (measuring p amount limit).weight r = amount r := if_pos h

theorem Meter.measuring_weight_of_not {amount : R → M} {limit : M} {r : R} (h : ¬ p r) :
    (measuring p amount limit).weight r = 0 := if_neg h

theorem Meter.measuring_weight_nonneg [Preorder M] {amount : R → M} {limit : M} {r : R}
    (h : 0 ≤ amount r) : 0 ≤ (measuring p amount limit).weight r := by
  unfold measuring
  dsimp only
  split_ifs
  · exact h
  · exact le_rfl

theorem Meter.Within.cons_measuring [LinearOrder M] {amount : R → M} {limit : M} {r : R}
    {s : Multiset R} (h : (measuring p amount limit).Within s)
    (hr : p r → amount r + (measuring p amount limit).used s ≤ limit) :
    (measuring p amount limit).Within (r ::ₘ s) := by
  by_cases hp : p r
  · refine Within.cons_of_le ?_
    rw [measuring_weight p hp]
    exact hr hp
  · exact h.cons_of_weight_eq_zero (measuring_weight_of_not p hp)

/-- The meter that counts the claims with `p`. -/
def Meter.counting {N : Type*} [Semiring N] (limit : ℕ) : Meter R N :=
  .measuring p (fun _ => 1) limit

theorem Meter.used_counting {N : Type*} [Semiring N] (limit : ℕ) (s : Multiset R) :
    (counting p limit : Meter R N).used s = s.countP p := by
  rw [counting, used_measuring, Multiset.countP_eq_card_filter]
  simp

theorem Meter.Within.cons_counting {N : Type*} [Semiring N] [LinearOrder N] [IsOrderedRing N]
    {limit : ℕ} {r : R} {s : Multiset R} (h : (counting p limit : Meter R N).Within s)
    (hr : p r → s.countP p + 1 ≤ limit) : (counting p limit : Meter R N).Within (r ::ₘ s) := by
  refine Within.cons_measuring p h fun hp => ?_
  have hused := used_counting (N := N) p limit s
  rw [counting] at hused
  rw [hused, add_comm]
  exact_mod_cast Nat.mono_cast (α := N) (hr hp)

theorem Meter.Within.countP_le {N : Type*} [Semiring N] [LinearOrder N] [IsStrictOrderedRing N]
    {limit : ℕ} {s : Multiset R} (h : (counting p limit : Meter R N).Within s) :
    s.countP p ≤ limit := by
  have hlimit : (0 : N) ≤ (counting p limit : Meter R N).limit := Nat.cast_nonneg limit
  have hle := h.used_le_of_nonneg hlimit
  rw [used_counting] at hle
  exact Nat.cast_le.mp hle

end Measuring

end AppBuilder.Quota
