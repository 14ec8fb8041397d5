import Mathlib.Data.List.Nodup
import Mathlib.Data.List.Perm.Basic

/-! A stable sort forgets how its list was ordered, but for the elements that tie. -/
namespace AppBuilder.Listing

variable {α : Type*} {le : α → α → Bool} {xs ys : List α} {a b c : α}

/-- The same elements, and those that tie in the same order. -/
structure SameTies (le : α → α → Bool) (xs ys : List α) : Prop where
  perm : xs.Perm ys
  nodup : xs.Nodup
  ties : ∀ a b, le a b = true → le b a = true → [a, b].Sublist xs → [a, b].Sublist ys

theorem not_pair_swap (hn : xs.Nodup) (h : [a, b].Sublist xs) : ¬ [b, a].Sublist xs := by
  induction xs with
  | nil => cases h
  | cons x xs ih =>
    obtain ⟨hx, hxs⟩ := List.nodup_cons.mp hn
    intro h'
    cases h with
    | cons _ h =>
      cases h' with
      | cons _ h' => exact ih hxs h h'
      | cons_cons _ h' => exact hx (h.subset (by simp))
    | cons_cons _ h =>
      cases h' with
      | cons _ h' => exact hx (h'.subset (by simp))
      | cons_cons _ h' => exact hx (h.subset (by simp))

theorem pair_or_swap (hne : a ≠ b) (ha : a ∈ xs) (hb : b ∈ xs) :
    [a, b].Sublist xs ∨ [b, a].Sublist xs := by
  induction xs with
  | nil => cases ha
  | cons x xs ih =>
    rcases List.mem_cons.mp ha with rfl | ha'
    · have hrest := (List.mem_cons.mp hb).resolve_left hne.symm
      exact .inl ((List.singleton_sublist.mpr hrest).cons_cons a)
    · rcases List.mem_cons.mp hb with rfl | hb'
      · exact .inr ((List.singleton_sublist.mpr ha').cons_cons b)
      · exact (ih ha' hb').imp (·.cons x) (·.cons x)

theorem SameTies.refl (hn : xs.Nodup) : SameTies le xs xs := ⟨.refl _, hn, fun _ _ _ _ h => h⟩

theorem SameTies.filter (h : SameTies le xs ys) (p : α → Bool) :
    SameTies le (xs.filter p) (ys.filter p) := by
  refine ⟨h.perm.filter p, h.nodup.filter p, fun a b hab hba hs => ?_⟩
  have hkept := (h.ties a b hab hba (hs.trans List.filter_sublist)).filter p
  have ha := List.of_mem_filter (hs.subset (List.mem_cons_self (a := a) (l := [b])))
  have hb := List.of_mem_filter (hs.subset (show b ∈ [a, b] by simp))
  simpa [ha, hb] using hkept

theorem SameTies.map (h : SameTies le xs ys) {f : α → α} (hle : ∀ a b, le (f a) (f b) = le a b)
    (hf : ∀ a ∈ xs, ∀ b ∈ xs, f a = f b → a = b) : SameTies le (xs.map f) (ys.map f) := by
  refine ⟨h.perm.map f, h.nodup.map_on hf, fun a b hab hba hs => ?_⟩
  obtain ⟨pair, hpair, heq⟩ := List.sublist_map_iff.mp hs
  obtain ⟨a', rest, rfl, rfl, hrest⟩ := List.map_eq_cons_iff.mp heq.symm
  obtain ⟨b', rest, rfl, rfl, hnil⟩ := List.map_eq_cons_iff.mp hrest
  rw [List.map_eq_nil_iff] at hnil
  subst hnil
  rw [hle] at hab hba
  exact (h.ties a' b' hab hba hpair).map f

theorem SameTies.append_singleton (h : SameTies le xs ys) (hc : c ∉ xs) :
    SameTies le (xs ++ [c]) (ys ++ [c]) := by
  refine ⟨h.perm.append_right [c], ?_, fun a b hab hba hs => ?_⟩
  · rw [List.nodup_append]
    refine ⟨h.nodup, List.nodup_singleton c, fun x hx y hy he => hc ?_⟩
    rw [← List.mem_singleton.mp hy, ← he]
    exact hx
  · obtain ⟨front, last, heq, hfront, hlast⟩ := List.sublist_append_iff.mp hs
    rw [heq]
    refine List.Sublist.append ?_ hlast
    match front, hfront, heq with
    | [], _, _ => exact List.nil_sublist _
    | [x], hx, _ =>
      rw [List.singleton_sublist] at hx ⊢
      exact h.perm.mem_iff.mp hx
    | [x, y], hxy, heq =>
      obtain ⟨rfl, rfl, -⟩ : a = x ∧ b = y ∧ [] = last := by simpa using heq
      exact h.ties a b hab hba hxy
    | _ :: _ :: _ :: _, _, heq => simp at heq

section Stable

variable (trans : ∀ a b c, le a b = true → le b c = true → le a c = true)
  (total : ∀ a b, (le a b || le b a) = true)
include trans total

theorem sameTies_mergeSort (hn : xs.Nodup) : SameTies le xs (xs.mergeSort le) :=
  ⟨(List.mergeSort_perm xs le).symm, hn, fun _ _ hab _ h =>
    List.pair_sublist_mergeSort trans total hab h⟩

theorem pairwise_mergeSort_ties (hn : xs.Nodup) : (xs.mergeSort le).Pairwise fun a b =>
    le a b = true ∧ (le b a = true → [a, b].Sublist xs) := by
  rw [List.pairwise_iff_forall_sublist]
  intro a b hs
  have hsorted := (List.pairwise_mergeSort trans total xs).forall_sublist hs
  refine ⟨hsorted, fun hba => ?_⟩
  have hnodup : (xs.mergeSort le).Nodup := (List.mergeSort_perm xs le).nodup_iff.mpr hn
  have hne : a ≠ b := by
    rintro rfl
    exact not_pair_swap hnodup hs hs
  have hmem : ∀ x ∈ [a, b], x ∈ xs := fun x hx =>
    (List.mergeSort_perm xs le).mem_iff.mp (hs.subset hx)
  rcases pair_or_swap hne (hmem a (by simp)) (hmem b (by simp)) with h | h
  · exact h
  · exact absurd (List.pair_sublist_mergeSort trans total hba h) (not_pair_swap hnodup hs)

theorem SameTies.mergeSort_eq (h : SameTies le xs ys) : xs.mergeSort le = ys.mergeSort le := by
  have hys : ys.Nodup := h.perm.nodup_iff.mp h.nodup
  have hperm : (xs.mergeSort le).Perm (ys.mergeSort le) :=
    (List.mergeSort_perm xs le).trans (h.perm.trans (List.mergeSort_perm ys le).symm)
  have hx := (pairwise_mergeSort_ties trans total h.nodup).imp
    (S := fun a b => le a b = true ∧ (le b a = true → [a, b].Sublist ys))
    fun {a b} hab => ⟨hab.1, fun hba => h.ties a b hab.1 hba (hab.2 hba)⟩
  refine hperm.eq_of_pairwise ?_ hx (pairwise_mergeSort_ties trans total hys)
  intro a b _ _ hab hba
  exact absurd (hba.2 hab.1) (not_pair_swap hys (hab.2 hba.1))

end Stable

end AppBuilder.Listing
