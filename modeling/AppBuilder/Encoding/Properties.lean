import AppBuilder.Encoding.JsonParse
import AppBuilder.Encoding.Utf16
import Mathlib.Data.List.Sort

/-! The order of an object's properties where they were defined in the order of their texts. -/
namespace AppBuilder.Encoding

section Sorting

variable {α : Type} (key : α → Text)

/-- `compareText(left, right) <= 0` -/
def notAfter (left right : Text) : Bool := !Utf16.lt right left

theorem notAfter_iff {left right : Text} :
    notAfter left right = true ↔ Utf16.encode left ≤ Utf16.encode right := by
  rw [notAfter, Utf16.lt, Bool.not_eq_true', decide_eq_false_iff_not, not_lt]

/-- `xs.sort((left, right) => compareText(key(left), key(right)))` -/
def sortByText (xs : List α) : List α := xs.insertionSort fun a b => notAfter (key a) (key b)

theorem sortByText_perm (xs : List α) : (sortByText key xs).Perm xs := List.perm_insertionSort ..

theorem sortByText_eq_self {xs : List α} (h : xs.Pairwise fun a b => notAfter (key a) (key b)) :
    sortByText key xs = xs := List.Pairwise.insertionSort_eq h

theorem sortByText_sorted (xs : List α) :
    (sortByText key xs).Pairwise fun a b => notAfter (key a) (key b) := by
  have htotal : Std.Total fun a b : α => notAfter (key a) (key b) = true :=
    ⟨fun a b => by rw [notAfter_iff, notAfter_iff]; exact le_total ..⟩
  have htrans : IsTrans α fun a b => notAfter (key a) (key b) = true :=
    ⟨fun a b c => by simp only [notAfter_iff]; exact le_trans⟩
  exact List.pairwise_insertionSort _ xs

/-- What is sorted and without duplicates is in strict order. -/
theorem sortByText_strict {xs : List α} (h : (xs.map key).Nodup) :
    (sortByText key xs).Pairwise fun a b => Utf16.lt (key a) (key b) := by
  have hnodup : ((sortByText key xs).map key).Nodup :=
    ((sortByText_perm key xs).map key).nodup_iff.mpr h
  have hne : (sortByText key xs).Pairwise fun a b => key a ≠ key b := List.pairwise_map.mp hnodup
  refine (hne.and (sortByText_sorted key xs)).imp fun h => ?_
  rw [Utf16.lt, decide_eq_true_eq]
  exact lt_of_le_of_ne (notAfter_iff.mp h.2) fun he => h.1 (Utf16.encode_injective he)

/-- A sort forgets the order that it was given. -/
theorem sortByText_congr {xs ys : List α} (hperm : xs.Perm ys) (h : (xs.map key).Nodup) :
    sortByText key xs = sortByText key ys := by
  have hys : (ys.map key).Nodup := (hperm.map key).nodup_iff.mp h
  refine @List.Perm.eq_of_pairwise _ (fun a b => Utf16.lt (key a) (key b) = true) _ _ ?_
    (sortByText_strict key h) (sortByText_strict key hys)
    ((sortByText_perm key xs).trans (hperm.trans (sortByText_perm key ys).symm))
  intro a b _ _ hab hba
  rw [Utf16.lt, decide_eq_true_eq] at hab hba
  exact absurd hba hab.asymm

end Sorting

section Order

/-- The order of the properties of an object that were defined in the order of their texts. -/
def settledBefore (a b : Text) : Bool :=
  match indexOf? a, indexOf? b with
  | some i, some j => i < j
  | some _, none => true
  | none, some _ => false
  | none, none => Utf16.lt a b

theorem indexOf?_inj {a b : Text} {n : ℕ} (ha : indexOf? a = some n) (hb : indexOf? b = some n) :
    a = b := by
  have hdigits : ∀ {key : Text}, indexOf? key = some n → key = Nat.toDigits 10 n := by
    intro key h
    rw [indexOf?] at h
    split_ifs at h with hkey
    cases h
    exact hkey.1
  rw [hdigits ha, hdigits hb]

theorem settledBefore_trans {a b c : Text} (hab : settledBefore a b = true)
    (hbc : settledBefore b c = true) : settledBefore a c = true := by
  rw [settledBefore] at *
  cases ha : indexOf? a <;> cases hb : indexOf? b <;> cases hc : indexOf? c <;>
    simp only [ha, hb, hc, Utf16.lt, decide_eq_true_eq, Bool.false_eq_true] at *
  · exact hab.trans hbc
  · exact hab.trans hbc

theorem settledBefore_irrefl (a : Text) : settledBefore a a = false := by
  rw [settledBefore]
  cases indexOf? a with
  | none => simp [Utf16.lt]
  | some i => simp

theorem settledBefore_asymm {a b : Text} (hab : settledBefore a b = true) :
    settledBefore b a = false := by
  by_contra hba
  rw [Bool.not_eq_false] at hba
  have hloop := settledBefore_trans hab hba
  rw [settledBefore_irrefl] at hloop
  cases hloop

theorem keyBefore_of_settledBefore {a b : Text} (h : settledBefore a b = true) :
    keyBefore a b = true := by
  rw [settledBefore] at h
  rw [keyBefore]
  cases ha : indexOf? a <;> cases hb : indexOf? b <;> simp_all

end Order

section Define

variable {α : Type} {members : List (Text × α)} {key : Text} {value : α}

/-- The properties are in the order in which they are settled. -/
def Settled (members : List (Text × α)) : Prop :=
  members.Pairwise fun a b => settledBefore a.1 b.1 = true

theorem Settled.nodup (h : Settled members) : (members.map (·.1)).Nodup := by
  refine List.pairwise_map.mpr (h.imp fun hlt he => ?_)
  rw [he, settledBefore_irrefl] at hlt
  cases hlt

theorem Settled.inOrder (h : Settled members) : InOrder members :=
  ⟨h.nodup, h.imp keyBefore_of_settledBefore⟩

theorem settledBefore_of_not_keyBefore {a : Text} (hne : a ≠ key)
    (h : keyBefore a key = false) : settledBefore key a = true := by
  rw [keyBefore] at h
  rw [settledBefore]
  cases ha : indexOf? a with
  | none =>
    cases hk : indexOf? key with
    | none => simp [ha, hk] at h
    | some j => rfl
  | some i =>
    cases hk : indexOf? key with
    | none => simp [ha, hk] at h
    | some j =>
      simp only [ha, hk, decide_eq_false_iff_not] at h
      refine decide_eq_true (lt_of_le_of_ne (Nat.not_lt.mp h) ?_)
      rintro rfl
      exact hne (indexOf?_inj ha hk)

theorem any_key_iff : members.any (·.1 == key) = true ↔ key ∈ members.map (·.1) := by
  rw [List.any_eq_true, List.mem_map]
  simp only [beq_iff_eq]

theorem defineMember_new (hnew : key ∉ members.map (·.1)) : defineMember members key value =
    members.takeWhile (fun m => keyBefore m.1 key) ++
      (key, value) :: members.dropWhile fun m => keyBefore m.1 key :=
  if_neg (mt any_key_iff.mp hnew)

theorem defineMember_perm (hnew : key ∉ members.map (·.1)) :
    (defineMember members key value).Perm ((key, value) :: members) := by
  rw [defineMember_new hnew]
  refine List.perm_middle.trans (List.Perm.cons _ ?_)
  rw [List.takeWhile_append_dropWhile]

theorem mem_defineMember {m : Text × α} (hm : m ∈ defineMember members key value) :
    m = (key, value) ∨ m ∈ members := by
  by_cases hnew : key ∈ members.map (·.1)
  · rw [defineMember, if_pos (any_key_iff.mpr hnew)] at hm
    obtain ⟨old, ho, rfl⟩ := List.mem_map.mp hm
    split_ifs
    · exact .inl rfl
    · exact .inr ho
  · exact List.mem_cons.mp ((defineMember_perm hnew).mem_iff.mp hm)

/-- A property whose text does not come before those of the others takes its settled place. -/
theorem defineMember_settled (h : Settled members)
    (hlast : ∀ m ∈ members, notAfter m.1 key = true) :
    Settled (defineMember members key value) := by
  by_cases hold : key ∈ members.map (·.1)
  · rw [defineMember, if_pos (any_key_iff.mpr hold)]
    refine List.pairwise_map.mpr (h.imp fun {a b} hab => ?_)
    have hkey : ∀ m : Text × α, (if m.1 == key then (key, value) else m).1 = m.1 := by
      intro m
      split_ifs with he
      · exact (beq_iff_eq.mp he).symm
      · rfl
    rw [hkey, hkey]
    exact hab
  rw [defineMember_new hold]
  have hne : ∀ m ∈ members, m.1 ≠ key := fun m hm he => hold (he ▸ List.mem_map_of_mem hm)
  obtain ⟨htake, hdrop, hacross⟩ := List.pairwise_append.mp
    ((List.takeWhile_append_dropWhile (p := fun m : Text × α => keyBefore m.1 key)
      (l := members)).symm ▸ h)
  have hbefore : ∀ m ∈ members.takeWhile (fun m => keyBefore m.1 key),
      settledBefore m.1 key = true := by
    intro m hm
    have hkey := List.mem_takeWhile_imp hm
    have hmem := (List.takeWhile_prefix _).subset hm
    have hlt : Utf16.lt m.1 key = true := by
      rw [Utf16.lt, decide_eq_true_eq]
      exact lt_of_le_of_ne (notAfter_iff.mp (hlast m hmem))
        fun he => hne m hmem (Utf16.encode_injective he)
    rw [keyBefore] at hkey
    rw [settledBefore]
    cases ha : indexOf? m.1 <;> cases hk : indexOf? key <;> simp_all
  have hafter : ∀ m ∈ members.dropWhile (fun m => keyBefore m.1 key),
      settledBefore key m.1 = true := by
    intro m hm
    cases hd : members.dropWhile (fun m => keyBefore m.1 key) with
    | nil =>
      rw [hd] at hm
      cases hm
    | cons first rest =>
      have hmem : first ∈ members := (List.dropWhile_suffix _).subset (hd ▸ List.mem_cons_self)
      have hstop : keyBefore first.1 key = false := by
        have hcons : members.dropWhile (fun m => keyBefore m.1 key) ≠ [] := by
          rw [hd]
          exact List.cons_ne_nil _ _
        have hhead := List.head_dropWhile_not (fun m : Text × α => keyBefore m.1 key) hcons
        simp only [hd, List.head_cons] at hhead
        exact hhead
      have hfirst := settledBefore_of_not_keyBefore (hne first hmem) hstop
      rw [hd] at hm hdrop
      rcases List.mem_cons.mp hm with rfl | hm
      · exact hfirst
      · exact settledBefore_trans hfirst ((List.pairwise_cons.mp hdrop).1 m hm)
  refine List.pairwise_append.mpr ⟨htake, List.pairwise_cons.mpr ⟨hafter, hdrop⟩, ?_⟩
  intro a ha b hb
  rcases List.mem_cons.mp hb with rfl | hb
  · exact hbefore a ha
  · exact hacross a ha b hb

/-- The properties that are defined one after another are among the entries. -/
theorem mem_foldl_defineMember {entries done : List (Text × α)} {m : Text × α}
    (hm : m ∈ entries.foldl (fun members entry => defineMember members entry.1 entry.2) done) :
    m ∈ done ∨ m ∈ entries := by
  induction entries generalizing done with
  | nil => exact .inl hm
  | cons entry rest ih =>
    rcases ih hm with hd | hr
    · rcases mem_defineMember hd with rfl | hd
      · exact .inr List.mem_cons_self
      · exact .inl hd
    · exact .inr (.tail _ hr)

theorem mem_fromEntries {entries : List (Text × α)} {m : Text × α} (hm : m ∈ fromEntries entries) :
    m ∈ entries := by
  rcases mem_foldl_defineMember hm with hm | hm
  · cases hm
  · exact hm

/-- `Object.fromEntries` of entries that are sorted by their keys. -/
theorem fromEntries_settled {entries : List (Text × α)}
    (h : entries.Pairwise fun a b => notAfter a.1 b.1 = true) : Settled (fromEntries entries) := by
  have hfold : ∀ rest done : List (Text × α), Settled done →
      rest.Pairwise (fun a b => notAfter a.1 b.1 = true) →
      (∀ a ∈ done, ∀ b ∈ rest, notAfter a.1 b.1 = true) →
      Settled (rest.foldl (fun members entry => defineMember members entry.1 entry.2) done) := by
    intro rest
    induction rest with
    | nil => exact fun done hdone _ _ => hdone
    | cons entry rest ih =>
      intro done hdone hrest hacross
      obtain ⟨hentry, hrest⟩ := List.pairwise_cons.mp hrest
      refine ih _ (defineMember_settled hdone fun m hm => hacross m hm entry List.mem_cons_self)
        hrest fun a ha b hb => ?_
      rcases mem_defineMember ha with rfl | ha
      · exact hentry b hb
      · exact hacross a ha b (.tail _ hb)
  exact hfold entries [] .nil h fun a ha => by cases ha

theorem fromEntries_perm {entries : List (Text × α)} (h : (entries.map (·.1)).Nodup) :
    (fromEntries entries).Perm entries := by
  have hfold : ∀ rest done : List (Text × α), ((done ++ rest).map (·.1)).Nodup →
      (rest.foldl (fun members entry => defineMember members entry.1 entry.2) done).Perm
        (done ++ rest) := by
    intro rest
    induction rest with
    | nil =>
      intro done _
      rw [List.append_nil]
      exact .refl _
    | cons entry rest ih =>
      intro done hnodup
      have hnew : entry.1 ∉ done.map (·.1) := by
        rw [List.map_append, List.nodup_append] at hnodup
        exact fun hmem => hnodup.2.2 _ hmem _ List.mem_cons_self rfl
      have hstep := ((@defineMember_perm _ _ _ entry.2) hnew).append_right rest
      have hwhole := hstep.trans List.perm_middle.symm
      exact (ih _ ((hwhole.map _).nodup_iff.mpr hnodup)).trans hwhole
  exact hfold entries [] h

/-- Properties that are settled stay as they are when they are sorted and defined again. -/
theorem fromEntries_sortByText (h : Settled members) :
    fromEntries (sortByText (·.1) members) = members := by
  have hsettled := fromEntries_settled (sortByText_sorted (fun m : Text × α => m.1) members)
  have hsort := sortByText_perm (fun m : Text × α => m.1) members
  have hperm := fromEntries_perm ((hsort.map _).nodup_iff.mpr h.nodup)
  refine @List.Perm.eq_of_pairwise _ (fun a b : Text × α => settledBefore a.1 b.1 = true)
    _ _ ?_ hsettled h (hperm.trans hsort)
  intro a b _ _ hab hba
  rw [settledBefore_asymm hab] at hba
  cases hba

end Define

end AppBuilder.Encoding
