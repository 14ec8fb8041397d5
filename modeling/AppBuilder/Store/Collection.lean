import Mathlib.Data.List.Basic
import Mathlib.Data.Nat.Notation

/-! Document collections with an `_id`, as lists in insertion order. -/
namespace AppBuilder.Store

class Document (α : Type) where
  docId : α → ℕ

export Document (docId)

variable {α : Type} [Document α]

def findById (docs : List α) (id : ℕ) : Option α := docs.find? fun d => docId d == id

/-- Rewrite the document with this `_id`; `f` keeps the `_id`. -/
def modifyById (docs : List α) (id : ℕ) (f : α → α) : List α :=
  docs.map fun d => if docId d == id then f d else d

def deleteById (docs : List α) (id : ℕ) : List α := docs.filter fun d => docId d != id

theorem docId_of_findById {docs : List α} {id : ℕ} {d : α} (h : findById docs id = some d) :
    docId d = id := by
  simpa using List.find?_some h

theorem mem_of_findById {docs : List α} {id : ℕ} {d : α} (h : findById docs id = some d) :
    d ∈ docs := List.mem_of_find?_eq_some h

/-- A document is found under its `_id` when no other has it. -/
theorem findById_of_mem {docs : List α} (hids : (docs.map docId).Nodup) {d : α} (h : d ∈ docs) :
    findById docs (docId d) = some d := by
  induction docs with
  | nil => cases h
  | cons head tail ih =>
    rw [List.map_cons, List.nodup_cons] at hids
    rw [findById, List.find?_cons]
    rcases List.mem_cons.mp h with rfl | h
    · simp
    · have hne : (docId head == docId d) = false := by
        rw [beq_eq_false_iff_ne]
        intro he
        exact hids.1 (List.mem_map.mpr ⟨d, h, he.symm⟩)
      rw [hne]
      exact ih hids.2 h

theorem findById_modifyById_of (docs : List α) (id id' : ℕ) (f : α → α)
    (hf : ∀ d, docId d = id → docId (f d) = id) :
    findById (modifyById docs id f) id' =
      if id' = id then (findById docs id').map f else findById docs id' := by
  have hg : ∀ d : α, docId (if docId d == id then f d else d) = docId d := by
    intro d
    split_ifs with h
    · rw [beq_iff_eq] at h
      rw [hf d h, h]
    · rfl
  induction docs with
  | nil => simp [findById, modifyById]
  | cons d docs ih =>
    simp only [findById, modifyById, List.map_cons, List.find?_cons, hg] at ih ⊢
    by_cases hd : docId d = id'
    · subst hd
      by_cases hi : docId d = id <;> simp [hi]
    · have hb : (docId d == id') = false := by simpa using hd
      simpa only [hb] using ih

theorem findById_modifyById (docs : List α) (id id' : ℕ) (f : α → α)
    (hf : ∀ d, docId (f d) = docId d) :
    findById (modifyById docs id f) id' =
      if id' = id then (findById docs id').map f else findById docs id' :=
  findById_modifyById_of docs id id' f fun d hd => (hf d).trans hd

@[simp] theorem findById_modifyById_self (docs : List α) (id : ℕ) (f : α → α)
    (hf : ∀ d, docId (f d) = docId d) :
    findById (modifyById docs id f) id = (findById docs id).map f := by
  simp [findById_modifyById _ _ _ _ hf]

theorem findById_modifyById_ne (docs : List α) {id id' : ℕ} (f : α → α)
    (hf : ∀ d, docId (f d) = docId d) (h : id' ≠ id) :
    findById (modifyById docs id f) id' = findById docs id' := by
  simp [findById_modifyById _ _ _ _ hf, h]

/-- A stored document is replaced by one with the same `_id`. -/
theorem findById_replace {docs : List α} {id : ℕ} {old new : α} (hold : findById docs id = some old)
    (hnew : docId new = id) (id' : ℕ) :
    findById (modifyById docs id fun _ => new) id' =
      if id' = id then some new else findById docs id' := by
  rw [findById_modifyById_of _ _ _ _ fun _ _ => hnew]
  split_ifs with h
  · rw [h, hold, Option.map_some]
  · rfl

/-- An `_id` that is larger than all others is free. -/
theorem findById_fresh {docs : List α} {id : ℕ} (h : ∀ d ∈ docs, docId d < id) :
    findById docs id = none :=
  List.find?_eq_none.mpr fun d hd => by simpa using Nat.ne_of_lt (h d hd)

theorem findById_deleteById (docs : List α) (id id' : ℕ) :
    findById (deleteById docs id) id' = if id' = id then none else findById docs id' := by
  unfold findById deleteById
  induction docs with
  | nil => simp
  | cons d docs ih =>
    by_cases hd : docId d = id
    · rw [List.filter_cons_of_neg (by simp [hd]), ih]
      split_ifs with hid
      · rfl
      · rw [List.find?_cons_of_neg]
        simpa [hd] using Ne.symm hid
    · rw [List.filter_cons_of_pos (by simpa using hd)]
      by_cases hid : docId d = id'
      · rw [List.find?_cons_of_pos (by simpa using hid), List.find?_cons_of_pos (by simpa using hid),
          if_neg (hid ▸ hd)]
      · rw [List.find?_cons_of_neg (by simpa using hid), List.find?_cons_of_neg (by simpa using hid),
          ih]

theorem findById_map (docs : List α) (id : ℕ) {f : α → α} (hf : ∀ d, docId (f d) = docId d) :
    findById (docs.map f) id = (findById docs id).map f := by
  simp only [findById, List.find?_map]
  congr 1
  exact congrArg (List.find? · docs) (funext fun d => by simp [hf])

/-- A new document is found only under an `_id` that was free. -/
theorem findById_append (docs : List α) (d : α) (id : ℕ) :
    findById (docs ++ [d]) id =
      (findById docs id).or (if docId d = id then some d else none) := by
  simp [findById, List.find?_append, List.find?_singleton]

theorem findById_insert {docs : List α} {new : α} (hfree : findById docs (docId new) = none)
    (id : ℕ) : findById (docs ++ [new]) id = if id = docId new then some new else findById docs id := by
  rw [findById_append]
  by_cases h : id = docId new
  · rw [if_pos h, h, hfree, if_pos rfl, Option.none_or]
  · rw [if_neg h, if_neg (Ne.symm h), Option.or_none]

end AppBuilder.Store
