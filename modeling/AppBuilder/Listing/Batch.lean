import Mathlib.Data.List.Sort
import Mathlib.Order.Basic

/-! The first elements of a sorted list, and lists of which elements are replaced or dropped. -/
namespace AppBuilder.Listing

section Batch

variable {α K : Type*} [LinearOrder K] {key : α → K} {l : List α} {a b : α} {n : ℕ}

/-- An element is among the first `n` where fewer than `n` keys lie below its own. -/
theorem mem_take_iff (hl : l.Pairwise fun a b => key a < key b) (ha : a ∈ l) :
    a ∈ l.take n ↔ l.countP (fun b => key b < key a) < n := by
  induction l generalizing n with
  | nil => cases ha
  | cons first rest ih =>
    obtain ⟨hhead, hrest⟩ := List.pairwise_cons.mp hl
    cases n with
    | zero => simp
    | succ n =>
      rw [List.take_succ_cons, List.mem_cons]
      rcases List.mem_cons.mp ha with rfl | ha
      · have hnone : rest.countP (fun b => key b < key a) = 0 := by
          refine List.countP_eq_zero.mpr fun b hb => ?_
          simpa using (hhead b hb).le
        rw [List.countP_cons_of_neg (by simp), hnone]
        exact ⟨fun _ => Nat.succ_pos n, fun _ => .inl rfl⟩
      · have hlt := hhead a ha
        have hne : a ≠ first := by
          rintro rfl
          exact lt_irrefl _ hlt
        rw [List.countP_cons_of_pos (by simpa using hlt), Nat.succ_lt_succ_iff, ← ih hrest ha]
        simp [hne]

/-- What is among the first lies below what is not. -/
theorem key_lt_of_mem_take (hl : l.Pairwise fun a b => key a < key b) (ha : a ∈ l.take n)
    (hb : b ∈ l) (hbn : b ∉ l.take n) : key a < key b := by
  rw [← List.take_append_drop n l] at hl hb
  have hdrop : b ∈ l.drop n := (List.mem_append.mp hb).resolve_left hbn
  exact (List.pairwise_append.mp hl).2.2 a ha b hdrop

/-- A batch is full where something is left over. -/
theorem length_take_of_not_mem (hb : b ∈ l) (hbn : b ∉ l.take n) : (l.take n).length = n := by
  rw [List.length_take]
  refine Nat.min_eq_left (Nat.le_of_not_le fun hle => hbn ?_)
  rwa [List.take_of_length_le hle]

variable (key)

theorem pairwise_insertionSort_le (l : List α) :
    (l.insertionSort fun a b => key a ≤ key b).Pairwise fun a b => key a ≤ key b := by
  have htotal : Std.Total fun a b : α => key a ≤ key b := ⟨fun a b => le_total ..⟩
  have htrans : IsTrans α fun a b => key a ≤ key b := ⟨fun a b c => le_trans⟩
  exact List.pairwise_insertionSort (fun a b : α => key a ≤ key b) l

theorem pairwise_insertionSort_lt (h : (l.map key).Nodup) :
    (l.insertionSort fun a b => key a ≤ key b).Pairwise fun a b => key a < key b := by
  have hsorted := pairwise_insertionSort_le key l
  have hne : (l.insertionSort fun a b => key a ≤ key b).Pairwise fun a b => key a ≠ key b := by
    refine List.pairwise_map.mp ?_
    exact ((List.perm_insertionSort (fun a b : α => key a ≤ key b) l).map key).nodup_iff.mpr h
  exact (hsorted.and hne).imp fun h => lt_of_le_of_ne h.1 h.2

end Batch

section Replacing

variable {α : Type*} {l : List α} {p : α → Bool} {f : α → Option α}

/-- What `p` selects is not touched, and nothing that is new is selected. -/
theorem filter_filterMap (hkept : ∀ a ∈ l, p a = true → f a = some a)
    (hnew : ∀ a ∈ l, ∀ b, f a = some b → p b = true → b = a) :
    (l.filterMap f).filter p = l.filter p := by
  induction l with
  | nil => rfl
  | cons a l ih =>
    have hrest := ih (fun b hb => hkept b (.tail _ hb)) fun b hb => hnew b (.tail _ hb)
    have hhead := hkept a List.mem_cons_self
    cases hp : p a with
    | true =>
      rw [List.filterMap_cons_some (hhead hp), List.filter_cons_of_pos hp,
        List.filter_cons_of_pos hp, hrest]
    | false =>
      rw [List.filter_cons_of_neg (by simp [hp])]
      cases hfa : f a with
      | none => rw [List.filterMap_cons_none hfa, hrest]
      | some b =>
        have hb : p b = false := by
          by_contra hpb
          rw [Bool.not_eq_false] at hpb
          rw [hnew a List.mem_cons_self b hfa hpb, hp] at hpb
          cases hpb
        rw [List.filterMap_cons_some hfa, List.filter_cons_of_neg (by simp [hb]), hrest]

/-- Dropping an element makes a list shorter. -/
theorem length_filterMap_lt {a : α} (ha : a ∈ l) (hf : f a = none) :
    (l.filterMap f).length < l.length := by
  induction l with
  | nil => cases ha
  | cons b l ih =>
    rcases List.mem_cons.mp ha with rfl | ha
    · rw [List.filterMap_cons_none hf, List.length_cons]
      exact Nat.lt_succ_of_le (List.length_filterMap_le ..)
    · cases hfb : f b with
      | none =>
        rw [List.filterMap_cons_none hfb, List.length_cons]
        exact (ih ha).trans (Nat.lt_succ_self _)
      | some c =>
        rw [List.filterMap_cons_some hfb, List.length_cons, List.length_cons]
        exact Nat.succ_lt_succ (ih ha)

end Replacing

end AppBuilder.Listing
