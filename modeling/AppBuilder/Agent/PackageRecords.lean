import AppBuilder.Agent.PackageJson
import AppBuilder.Encoding.Properties

/-! What `mergeProjectPackageJson` leaves at each name, and when that is what the base has. -/
namespace AppBuilder.Agent
open Encoding

section Properties
variable {α : Type} {members entries : List (Text × α)} {key : Text} {value : α}

/-- The property of an object. -/
def valueOf (members : List (Text × α)) (key : Text) : Option α :=
  (members.find? (·.1 == key)).map (·.2)

theorem valueOf_eq_some_iff (h : (members.map (·.1)).Nodup) :
    valueOf members key = some value ↔ (key, value) ∈ members := by
  unfold valueOf
  constructor
  · intro hvalue
    obtain ⟨m, hm, rfl⟩ := Option.map_eq_some_iff.mp hvalue
    have hkey : m.1 = key := by simpa using List.find?_some hm
    rw [← hkey]
    exact List.mem_of_find?_eq_some hm
  · intro hmem
    cases hfind : members.find? (·.1 == key) with
    | none =>
      rw [List.find?_eq_none] at hfind
      exact absurd (beq_self_eq_true key) (hfind _ hmem)
    | some m =>
      have hkey : m.1 = key := by simpa using List.find?_some hfind
      have hsame := List.inj_on_of_nodup_map h (List.mem_of_find?_eq_some hfind) hmem hkey
      rw [hsame]
      rfl

theorem valueOf_perm {members' : List (Text × α)} (h : (members.map (·.1)).Nodup)
    (hperm : members'.Perm members) : valueOf members' key = valueOf members key := by
  have h' := (hperm.map (·.1)).nodup_iff.mpr h
  refine Option.ext fun value => ?_
  rw [valueOf_eq_some_iff h', valueOf_eq_some_iff h, hperm.mem_iff]

theorem valueOf_eq_none_iff : valueOf members key = none ↔ key ∉ members.map (·.1) := by
  rw [valueOf, Option.map_eq_none_iff, List.find?_eq_none]
  simp only [List.mem_map, not_exists, not_and, beq_iff_eq]

theorem nodup_defineMember (h : (members.map (·.1)).Nodup) :
    ((defineMember members key value).map (·.1)).Nodup := by
  by_cases hold : key ∈ members.map (·.1)
  · have hsame : (defineMember members key value).map (·.1) = members.map (·.1) := by
      rw [defineMember, if_pos (any_key_iff.mpr hold), List.map_map]
      refine List.map_congr_left fun m _ => ?_
      by_cases hm : m.1 = key <;> simp [hm]
    rw [hsame]
    exact h
  · rw [((defineMember_perm hold).map (·.1)).nodup_iff, List.map_cons, List.nodup_cons]
    exact ⟨hold, h⟩

/-- The step lemma of the properties. -/
theorem valueOf_defineMember (h : (members.map (·.1)).Nodup) (name : Text) :
    valueOf (defineMember members key value) name =
      if key = name then some value else valueOf members name := by
  refine Option.ext fun v => ?_
  rw [valueOf_eq_some_iff (nodup_defineMember h)]
  by_cases hold : key ∈ members.map (·.1)
  · rw [defineMember, if_pos (any_key_iff.mpr hold), List.mem_map]
    split_ifs with hname
    · subst hname
      constructor
      · rintro ⟨m, -, hm⟩
        by_cases hkey : m.1 = key
        · rw [if_pos (beq_iff_eq.mpr hkey), Prod.mk.injEq] at hm
          rw [hm.2]
        · rw [if_neg (mt beq_iff_eq.mp hkey)] at hm
          rw [hm] at hkey
          exact absurd rfl hkey
      · rintro hv
        cases hv
        obtain ⟨m, hm, hkey⟩ := List.mem_map.mp hold
        exact ⟨m, hm, if_pos (beq_iff_eq.mpr hkey)⟩
    · rw [valueOf_eq_some_iff h]
      constructor
      · rintro ⟨m, hm, he⟩
        split_ifs at he
        · exact absurd (congrArg Prod.fst he) hname
        · rw [← he]
          exact hm
      · intro hm
        exact ⟨_, hm, if_neg (mt beq_iff_eq.mp (Ne.symm hname))⟩
  · rw [(defineMember_perm hold).mem_iff, List.mem_cons, Prod.mk.injEq]
    split_ifs with hname
    · subst hname
      constructor
      · rintro (⟨-, rfl⟩ | hm)
        · rfl
        · exact absurd (List.mem_map_of_mem hm) hold
      · rintro hv
        cases hv
        exact .inl ⟨rfl, rfl⟩
    · rw [valueOf_eq_some_iff h]
      exact ⟨fun hm => hm.resolve_left fun he => hname he.1.symm, .inr⟩

/-- The run lemma: each name has the value of its last entry. -/
theorem valueOf_foldl (h : (members.map (·.1)).Nodup) (name : Text) :
    ((entries.foldl (fun members entry => defineMember members entry.1 entry.2)
        members).map (·.1)).Nodup ∧
      valueOf (entries.foldl (fun members entry => defineMember members entry.1 entry.2) members)
          name =
        entries.foldl (fun found entry => if entry.1 = name then some entry.2 else found)
          (valueOf members name) := by
  induction entries generalizing members with
  | nil => exact ⟨h, rfl⟩
  | cons entry entries ih =>
    have hstep := ih (@nodup_defineMember _ _ entry.1 entry.2 h)
    rw [valueOf_defineMember h] at hstep
    exact hstep

/-- What the last of these entries says about a name, after what was said before. -/
theorem foldl_entry (found : Option α) (h : (entries.map (·.1)).Nodup) (name : Text) :
    entries.foldl (fun found entry => if entry.1 = name then some entry.2 else found) found =
      (valueOf entries name).or found := by
  induction entries generalizing found with
  | nil => rfl
  | cons entry entries ih =>
    rw [List.map_cons, List.nodup_cons] at h
    rw [List.foldl_cons, ih _ h.2]
    by_cases hname : entry.1 = name
    · subst hname
      have hnone : valueOf entries entry.1 = none := valueOf_eq_none_iff.mpr h.1
      have hfirst : valueOf (entry :: entries) entry.1 = some entry.2 := by
        rw [valueOf, List.find?_cons_of_pos (by simp)]
        rfl
      rw [if_pos rfl, hnone, hfirst, Option.none_or, Option.some_or]
    · have hrest : valueOf (entry :: entries) name = valueOf entries name := by
        rw [valueOf, List.find?_cons_of_neg (by simpa using hname), valueOf]
      rw [if_neg hname, hrest]

/-- Properties that are there already do not change when they are defined again. -/
theorem foldl_defineMember_same (hmembers : (members.map (·.1)).Nodup)
    (h : ∀ entry ∈ entries, entry ∈ members) :
    entries.foldl (fun members entry => defineMember members entry.1 entry.2) members =
      members := by
  induction entries with
  | nil => rfl
  | cons entry entries ih =>
    have hmem := h entry List.mem_cons_self
    have hsame : defineMember members entry.1 entry.2 = members := by
      rw [defineMember, if_pos (any_key_iff.mpr (List.mem_map_of_mem hmem))]
      conv_rhs => rw [← List.map_id members]
      refine List.map_congr_left fun m hm => ?_
      by_cases hkey : m.1 = entry.1
      · rw [if_pos (beq_iff_eq.mpr hkey)]
        exact (List.inj_on_of_nodup_map hmembers hm hmem hkey).symm
      · exact if_neg (mt beq_iff_eq.mp hkey)
    rw [List.foldl_cons, hsame]
    exact ih fun e he => h e (List.mem_cons_of_mem _ he)

end Properties

section Records
variable {record entries base generated : List (String × String)} {name : String}
  {localeCompare : String → String → Ordering}

/-- The property of a record. -/
def valueAt (record : List (String × String)) (name : String) : Option String :=
  (record.find? (·.1 == name)).map (·.2)

/-- The list has each name once, as the own properties of an object do. -/
def IsRecord (record : List (String × String)) : Prop := (record.map (·.1)).Nodup

def asMember (entry : String × String) : Text × String := (entry.1.toList, entry.2)

def asEntry (member : Text × String) : String × String := (String.ofList member.1, member.2)

theorem asEntry_asMember (entry : String × String) : asEntry (asMember entry) = entry := by
  rw [asEntry, asMember, String.ofList_toList]

theorem isRecord_iff : IsRecord entries ↔ ((entries.map asMember).map (·.1)).Nodup := by
  have hkeys : (entries.map asMember).map (·.1) = (entries.map (·.1)).map String.toList := by
    rw [List.map_map, List.map_map]
    rfl
  rw [hkeys, IsRecord, List.nodup_map_iff fun _ _ h => String.toList_injective h]

theorem valueOf_asMember (entries : List (String × String)) (name : String) :
    valueOf (entries.map asMember) name.toList = valueAt entries name := by
  have hsame : (fun m : Text × String => m.1 == name.toList) ∘ asMember =
      fun entry : String × String => entry.1 == name := by
    funext entry
    rw [Bool.eq_iff_iff, beq_iff_eq]
    simp only [Function.comp_apply, asMember, beq_iff_eq, String.toList_inj]
  rw [valueOf, List.find?_map, hsame, Option.map_map]
  rfl

theorem map_asMember_recordFrom :
    (recordFrom entries).map asMember = fromEntries (entries.map asMember) := by
  have hid : asMember ∘ asEntry = id := by
    funext m
    rw [Function.comp_apply, asEntry, asMember, String.toList_ofList]
    rfl
  change ((fromEntries (entries.map asMember)).map asEntry).map asMember = _
  rw [List.map_map, hid, List.map_id]

theorem nodup_none : (([] : List (Text × String)).map (·.1)).Nodup := List.nodup_nil

theorem isRecord_recordFrom (entries : List (String × String)) : IsRecord (recordFrom entries) := by
  rw [isRecord_iff, map_asMember_recordFrom]
  exact (valueOf_foldl nodup_none []).1

/-- The name of a record that is built from three others has the value of the last that has it. -/
theorem valueAt_recordFrom (hentries : IsRecord entries) (hbase : IsRecord base)
    (hgenerated : IsRecord generated) :
    valueAt (recordFrom (entries ++ base ++ generated)) name =
      (valueAt generated name).or ((valueAt base name).or (valueAt entries name)) := by
  rw [← valueOf_asMember, map_asMember_recordFrom, fromEntries, (valueOf_foldl nodup_none _).2]
  rw [List.map_append, List.map_append, List.foldl_append, List.foldl_append,
    foldl_entry _ (isRecord_iff.mp hentries), foldl_entry _ (isRecord_iff.mp hbase),
    foldl_entry _ (isRecord_iff.mp hgenerated)]
  simp only [valueOf_asMember]
  rw [valueOf, List.find?_nil, Option.map_none, Option.or_none]

theorem valueAt_eq_some_iff {value : String} (h : IsRecord entries) :
    valueAt entries name = some value ↔ (name, value) ∈ entries := by
  rw [← valueOf_asMember, valueOf_eq_some_iff (isRecord_iff.mp h), List.mem_map]
  constructor
  · rintro ⟨entry, hentry, he⟩
    rw [← asEntry_asMember entry, he, asEntry, String.ofList_toList] at hentry
    exact hentry
  · exact fun hmem => ⟨_, hmem, rfl⟩

theorem valueAt_perm {record' : List (String × String)} (h : IsRecord record)
    (hperm : record'.Perm record) : valueAt record' name = valueAt record name := by
  rw [← valueOf_asMember, ← valueOf_asMember]
  exact valueOf_perm (isRecord_iff.mp h) (hperm.map asMember)

theorem IsRecord.perm {record' : List (String × String)} (h : IsRecord record)
    (hperm : record'.Perm record) : IsRecord record' := by
  unfold IsRecord at *
  exact (hperm.map (·.1)).nodup_iff.mpr h

theorem recordFrom_perm (h : IsRecord record) : (recordFrom record).Perm record := by
  have hfrom := (fromEntries_perm (isRecord_iff.mp h)).map asEntry
  have hid : asEntry ∘ asMember = id := funext asEntry_asMember
  rw [List.map_map, hid, List.map_id] at hfrom
  exact hfrom

/-- Sorting the properties changes their order only. -/
theorem sortRecord_perm (localeCompare : String → String → Ordering) (h : IsRecord record) :
    (sortRecord localeCompare record).Perm record := by
  have hsort := List.mergeSort_perm record fun left right => localeCompare left.1 right.1 != .gt
  exact (recordFrom_perm (h.perm hsort)).trans hsort

/-- Entries that the record has already add nothing to it. -/
theorem recordFrom_same (h : ∀ entry ∈ generated, entry ∈ recordFrom (entries ++ base)) :
    recordFrom (entries ++ base ++ generated) = recordFrom (entries ++ base) := by
  have hfrom : ∀ record : List (String × String),
      recordFrom record = (fromEntries (record.map asMember)).map asEntry := fun _ => rfl
  have hsplit : (entries ++ base ++ generated).map asMember =
      (entries ++ base).map asMember ++ generated.map asMember := List.map_append
  rw [hfrom, hfrom, hsplit, fromEntries, List.foldl_append]
  congr 1
  refine foldl_defineMember_same (valueOf_foldl nodup_none []).1 fun member hmember => ?_
  obtain ⟨entry, hentry, rfl⟩ := List.mem_map.mp hmember
  have hmem := List.mem_map_of_mem (f := asMember) (h entry hentry)
  rw [map_asMember_recordFrom] at hmem
  exact hmem

/-- Both records have the same properties, in whatever order. -/
def SameRecord (record record' : List (String × String)) : Prop :=
  ∀ name, valueAt record name = valueAt record' name

/-- The generated entries are those of the base, which has a value for each required name. -/
structure RecordKept (required base generated : List (String × String)) : Prop where
  generated : ∀ entry ∈ generated, valueAt base entry.1 = some entry.2
  required : ∀ entry ∈ required, (valueAt base entry.1).isSome = true

theorem valueAt_merged (localeCompare : String → String → Ordering) (hentries : IsRecord entries)
    (hbase : IsRecord base) (hgenerated : IsRecord generated) (name : String) :
    valueAt (sortRecord localeCompare (recordFrom (entries ++ base ++ generated))) name =
      (valueAt generated name).or ((valueAt base name).or (valueAt entries name)) := by
  have hrecord := isRecord_recordFrom (entries ++ base ++ generated)
  rw [valueAt_perm hrecord (sortRecord_perm localeCompare hrecord),
    valueAt_recordFrom hentries hbase hgenerated]

theorem sameRecord_merged_iff (localeCompare : String → String → Ordering)
    (hentries : IsRecord entries) (hbase : IsRecord base) (hgenerated : IsRecord generated) :
    SameRecord (sortRecord localeCompare (recordFrom (entries ++ base ++ generated))) base ↔
      RecordKept entries base generated := by
  have hmerged := valueAt_merged localeCompare hentries hbase hgenerated
  constructor
  · intro hsame
    refine ⟨fun entry hentry => ?_, fun entry hentry => ?_⟩
    · have hvalue : valueAt generated entry.1 = some entry.2 :=
        (valueAt_eq_some_iff hgenerated).mpr hentry
      rw [← hsame, hmerged, hvalue, Option.some_or]
    · have hvalue : valueAt entries entry.1 = some entry.2 :=
        (valueAt_eq_some_iff hentries).mpr hentry
      rw [← hsame, hmerged, hvalue, Option.isSome_or, Option.isSome_or, Option.isSome_some,
        Bool.or_true, Bool.or_true]
  · intro hkept name
    rw [hmerged]
    cases hgenerated' : valueAt generated name with
    | some value =>
      have hmem := (valueAt_eq_some_iff hgenerated).mp hgenerated'
      rw [Option.some_or, hkept.generated _ hmem]
    | none =>
      rw [Option.none_or]
      cases hbase' : valueAt base name with
      | some value => rfl
      | none =>
        rw [Option.none_or]
        cases hentries' : valueAt entries name with
        | none => rfl
        | some value =>
          have hsome := hkept.required _ ((valueAt_eq_some_iff hentries).mp hentries')
          rw [hbase'] at hsome
          cases hsome

theorem RecordKept.recordFrom_eq (hentries : IsRecord entries) (hbase : IsRecord base)
    (h : RecordKept entries base generated) :
    recordFrom (entries ++ base ++ generated) = recordFrom (entries ++ base) := by
  refine recordFrom_same fun entry hentry => ?_
  have hvalue := h.generated entry hentry
  rw [← valueAt_eq_some_iff (isRecord_recordFrom _)]
  have hmerged := @valueAt_recordFrom entries base [] entry.1 hentries hbase List.nodup_nil
  rw [List.append_nil] at hmerged
  rw [hmerged, hvalue]
  rfl

end Records

section Packages
variable {localeCompare : String → String → Ordering} {base : ProjectSnapshotPackageJson}
  {generated : GenerationResult}

/-- The same package data, in whatever order. -/
structure SamePackage (packageJson packageJson' : ProjectSnapshotPackageJson) : Prop where
  dependencies : SameRecord packageJson.dependencies packageJson'.dependencies
  devDependencies : SameRecord packageJson.devDependencies packageJson'.devDependencies
  scripts : SameRecord packageJson.scripts packageJson'.scripts

/-- The dependency changes change nothing, and the base has what the server requires. -/
structure PackageKept (base : ProjectSnapshotPackageJson) (generated : GenerationResult) :
    Prop where
  dependencies : RecordKept requiredDependencies base.dependencies generated.dependencies
  devDependencies :
    RecordKept requiredDevDependencies base.devDependencies generated.devDependencies
  scripts : SameRecord serverScripts base.scripts

/-- The maps of dependencies are objects. -/
structure HasRecords (dependencies devDependencies : List (String × String)) : Prop where
  dependencies : IsRecord dependencies
  devDependencies : IsRecord devDependencies

theorem isRecord_required : HasRecords requiredDependencies requiredDevDependencies := by
  constructor
  · rw [IsRecord]
    decide
  · rw [IsRecord]
    decide

theorem samePackage_merge_iff (hbase : HasRecords base.dependencies base.devDependencies)
    (hgenerated : HasRecords generated.dependencies generated.devDependencies) :
    SamePackage (mergeProjectPackageJson localeCompare (some base) generated) base ↔
      PackageKept base generated := by
  have hdependencies := sameRecord_merged_iff localeCompare isRecord_required.dependencies
    hbase.dependencies hgenerated.dependencies
  have hdevDependencies := sameRecord_merged_iff localeCompare isRecord_required.devDependencies
    hbase.devDependencies hgenerated.devDependencies
  exact ⟨fun h => ⟨hdependencies.mp h.dependencies, hdevDependencies.mp h.devDependencies,
      h.scripts⟩,
    fun h => ⟨hdependencies.mpr h.dependencies, hdevDependencies.mpr h.devDependencies, h.scripts⟩⟩

/-- What the server makes of the package data of a base. -/
def serverPackage (localeCompare : String → String → Ordering)
    (base : ProjectSnapshotPackageJson) : ProjectSnapshotPackageJson :=
  mergeProjectPackageJson localeCompare (some base) ⟨"", [], [], []⟩

theorem PackageKept.merge_eq (hbase : HasRecords base.dependencies base.devDependencies)
    (h : PackageKept base generated) :
    mergeProjectPackageJson localeCompare (some base) generated =
      serverPackage localeCompare base := by
  have hdependencies := h.dependencies.recordFrom_eq isRecord_required.dependencies
    hbase.dependencies
  have hdevDependencies := h.devDependencies.recordFrom_eq isRecord_required.devDependencies
    hbase.devDependencies
  unfold serverPackage mergeProjectPackageJson
  simp only [Option.elim_some, List.append_nil, hdependencies, hdevDependencies]

end Packages

end AppBuilder.Agent
