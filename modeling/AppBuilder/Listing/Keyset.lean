import Mathlib.Data.List.Sort
import Mathlib.Order.Basic

/-! Listings that are read in pages, each of which begins below the last key of the page before,
while newer keys arrive. -/
namespace AppBuilder.Listing

section Descending

variable {K : Type*} [LinearOrder K]

/-- The keys, the highest first. -/
def descending (keys : List K) : List K := keys.mergeSort fun a b => decide (b ≤ a)

theorem descending_perm (keys : List K) : (descending keys).Perm keys := List.mergeSort_perm _ _

theorem pairwise_descending (keys : List K) : (descending keys).Pairwise (· ≥ ·) := by
  have hsorted := @List.pairwise_mergeSort _ (fun a b : K => decide (b ≤ a))
    (fun a b c hab hbc => by
      simp only [decide_eq_true_eq] at hab hbc ⊢
      exact hbc.trans hab)
    (fun a b => by simpa using le_total b a) keys
  exact hsorted.imp of_decide_eq_true

/-- The sorted keys are determined by the keys alone. -/
theorem descending_eq_of_perm {keys sorted : List K} (hperm : keys.Perm sorted)
    (hsorted : sorted.Pairwise (· ≥ ·)) : descending keys = sorted :=
  List.Perm.eq_of_pairwise (fun _ _ _ _ hab hba => le_antisymm hba hab) (pairwise_descending keys)
    hsorted ((descending_perm keys).trans hperm)

theorem descending_congr {keys keys' : List K} (hperm : keys.Perm keys') :
    descending keys = descending keys' :=
  descending_eq_of_perm (hperm.trans (descending_perm keys').symm) (pairwise_descending keys')

theorem strictly_descending {keys : List K} (hnodup : keys.Nodup) :
    (descending keys).Pairwise (· > ·) := by
  have hdistinct : (descending keys).Pairwise (· ≠ ·) := (descending_perm keys).nodup_iff.mpr hnodup
  exact ((pairwise_descending keys).and hdistinct).imp fun h => lt_of_le_of_ne h.1 h.2.symm

theorem descending_filter (p : K → Bool) (keys : List K) :
    descending (keys.filter p) = (descending keys).filter p :=
  descending_eq_of_perm ((descending_perm keys).symm.filter p)
    ((pairwise_descending keys).sublist List.filter_sublist)

/-- What lies below one of the sorted keys is what follows it. -/
theorem filter_lt_eq_drop {sorted : List K} (hsorted : sorted.Pairwise (· > ·)) {n : ℕ} {b : K}
    (hb : sorted[n]? = some b) : sorted.filter (· < b) = sorted.drop (n + 1) := by
  induction sorted generalizing n with
  | nil => cases hb
  | cons k rest ih =>
    obtain ⟨hhead, hrest⟩ := List.pairwise_cons.mp hsorted
    cases n with
    | zero =>
      cases hb
      have hall : rest.filter (· < b) = rest :=
        List.filter_eq_self.mpr fun a ha => decide_eq_true (hhead a ha)
      rw [List.filter_cons_of_neg (by simp), hall, List.drop_succ_cons, List.drop_zero]
    | succ n =>
      have hmem : b ∈ rest := List.mem_of_getElem? hb
      rw [List.filter_cons_of_neg (by simpa using (hhead b hmem).le), List.drop_succ_cons]
      exact ih hrest hb

/-- A page that begins below an old key has the old keys that follow it, whatever has arrived. -/
theorem descending_below {old newer keys : List K} (hnodup : old.Nodup)
    (hperm : keys.Perm (old ++ newer)) (hnewer : ∀ k ∈ newer, ∀ o ∈ old, o < k) {n : ℕ} {b : K}
    (hb : (descending old)[n]? = some b) :
    descending (keys.filter (· < b)) = (descending old).drop (n + 1) := by
  have hold : b ∈ old := (descending_perm old).mem_iff.mp (List.mem_of_getElem? hb)
  have hnone : newer.filter (· < b) = [] :=
    List.filter_eq_nil_iff.mpr fun k hk => by simpa using (hnewer k hk b hold).le
  have hbelow : (keys.filter (· < b)).Perm (old.filter (· < b)) := by
    have hfilter := hperm.filter (· < b)
    rwa [List.filter_append, hnone, List.append_nil] at hfilter
  calc descending (keys.filter (· < b))
      = descending (old.filter (· < b)) := descending_congr hbelow
    _ = (descending old).filter (· < b) := descending_filter _ old
    _ = (descending old).drop (n + 1) := filter_lt_eq_drop (strictly_descending hnodup) hb

end Descending

section Stable

variable {α T : Type*} [LinearOrder T] (time : α → T)

/-- The rows by their time, where rows of one time keep their order. -/
def byTime (rows : List α) : List α := rows.mergeSort fun a b => decide (time a ≤ time b)

theorem byTime_perm (rows : List α) : (byTime time rows).Perm rows := List.mergeSort_perm _ _

private theorem time_trans (a b c : α) (hab : decide (time a ≤ time b) = true)
    (hbc : decide (time b ≤ time c) = true) : decide (time a ≤ time c) = true :=
  decide_eq_true ((of_decide_eq_true hab).trans (of_decide_eq_true hbc))

private theorem time_total (a b : α) :
    (decide (time a ≤ time b) || decide (time b ≤ time a)) = true := by
  simpa using le_total (time a) (time b)

theorem pairwise_byTime (rows : List α) :
    (byTime time rows).Pairwise fun a b => time a ≤ time b :=
  (List.pairwise_mergeSort (time_trans time) (time_total time) rows).imp of_decide_eq_true

theorem byTime_of_pairwise {rows : List α} (h : rows.Pairwise fun a b => time a ≤ time b) :
    byTime time rows = rows :=
  List.mergeSort_of_pairwise (h.imp decide_eq_true)

/-- Rows that are not after any other stay in front. -/
theorem byTime_append {older rows : List α} (hsorted : older.Pairwise fun a b => time a ≤ time b)
    (hbefore : ∀ a ∈ older, ∀ b ∈ rows, time a ≤ time b) :
    byTime time (older ++ rows) = older ++ byTime time rows := by
  induction older with
  | nil => rfl
  | cons a older ih =>
    obtain ⟨hhead, hrest⟩ := List.pairwise_cons.mp hsorted
    have htail := ih hrest fun x hx => hbefore x (List.mem_cons_of_mem _ hx)
    obtain ⟨l₁, l₂, hsort, hwithout, hlater⟩ := List.mergeSort_cons (time_trans time)
      (time_total time) a (older ++ rows)
    have hfirst : l₁ = [] := by
      refine List.eq_nil_iff_forall_not_mem.mpr fun b hb => ?_
      have hmem : b ∈ older ++ rows := by
        have hin : b ∈ l₁ ++ l₂ := List.mem_append_left _ hb
        rwa [← hwithout, List.mem_mergeSort] at hin
      have hle : time a ≤ time b := (List.mem_append.mp hmem).elim (hhead b)
        (hbefore a List.mem_cons_self b)
      simpa [hle] using hlater b hb
    subst hfirst
    rw [List.nil_append] at hsort hwithout
    rw [byTime, List.cons_append, hsort, ← hwithout, List.cons_append]
    exact congrArg (a :: ·) htail

end Stable

end AppBuilder.Listing
