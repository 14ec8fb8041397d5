import Mathlib.Algebra.BigOperators.Group.List.Basic
import Mathlib.Algebra.GroupWithZero.Nat
import Mathlib.Algebra.Order.BigOperators.Group.List
import Mathlib.Data.List.Infix

/-! Dropping the first elements of a list until what remains keeps to a budget. -/
namespace AppBuilder.Listing

variable {α : Type}

def weight (size : α → ℕ) (xs : List α) : ℕ := (xs.map size).sum

def dropOver (size : α → ℕ) (limit : ℕ) : List α → List α
  | [] => []
  | x :: xs => if weight size (x :: xs) ≤ limit then x :: xs else dropOver size limit xs

section Budget

variable {size : α → ℕ} {limit : ℕ} {xs ys : List α}

theorem weight_cons (x : α) : weight size (x :: xs) = size x + weight size xs := rfl

theorem weight_append : weight size (xs ++ ys) = weight size xs + weight size ys := by
  rw [weight, List.map_append, List.sum_append]
  rfl

theorem weight_perm (h : xs.Perm ys) : weight size xs = weight size ys := (h.map size).sum_eq

theorem weight_dropOver : weight size (dropOver size limit xs) ≤ limit := by
  induction xs with
  | nil => exact Nat.zero_le limit
  | cons x xs ih =>
    rw [dropOver]
    split_ifs with hfits
    · exact hfits
    · exact ih

/-- What is dropped comes first, and its last element does not fit any more. -/
theorem dropOver_split : ∃ dropped, xs = dropped ++ dropOver size limit xs ∧
    ∀ x ∈ dropped.getLast?, limit < weight size (dropOver size limit xs) + size x := by
  induction xs with
  | nil => exact ⟨[], rfl, fun x hx => (nomatch hx)⟩
  | cons x xs ih =>
    rw [dropOver]
    split_ifs with hfits
    · exact ⟨[], rfl, fun x hx => (nomatch hx)⟩
    · obtain ⟨dropped, hsplit, hlast⟩ := ih
      refine ⟨x :: dropped, by rw [List.cons_append, ← hsplit], ?_⟩
      cases dropped with
      | nil =>
        intro y hy
        rw [List.getLast?_singleton, Option.mem_some_iff] at hy
        subst hy
        rw [List.nil_append] at hsplit
        rw [weight_cons] at hfits
        rw [← hsplit]
        omega
      | cons d dropped => exact hlast

end Budget
end AppBuilder.Listing
