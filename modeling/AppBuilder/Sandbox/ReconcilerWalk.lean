import AppBuilder.Sandbox.CommandWalk

/-! `SandboxReconciler` keeps to the conduct. -/
namespace AppBuilder.Sandbox
open Agent Async

variable {options : SandboxServiceOptions} {directory : Directory} {key : SandboxRef → String}
  {h : SandboxHistory}

/-- What an inspection adds to the history. -/
theorem inspect_conducted (ref : SandboxRef) :
    Conducted options directory key (inspect ref) h fun _ h' =>
      ∃ r : sandboxApi.Answer (.inspect ref), h' = ⟨.inspect ref, r⟩ :: h := by
  refine (Protocol.tracks_tryCatch ..).mpr (Protocol.tracks_step trivial (fun v _ => ⟨_, rfl⟩) ?_)
  exact fun e _ => Conducted.ite (fun _ => ⟨_, rfl⟩) fun _ => trivial

theorem claimAndResume_conducted (leaseId : ObjectId) :
    Conducted options directory key (claimAndResume options leaseId) h fun _ _ => True := by
  refine Conducted.step (.findLease leaseId) trivial fun before _ => ?_
  cases before with
  | none => trivial
  | some before =>
    refine Conducted.ite (fun _ => trivial) fun _ => ?_
    refine Conducted.step .now trivial fun claimedAt _ => ?_
    refine Conducted.step (.claimProvisioning leaseId before.updatedAt claimedAt) trivial
      fun claimed _ => Conducted.ite (fun _ => trivial) fun _ => ?_
    exact (resumeProvisioning_conducted leaseId).andThen fun _ _ _ _ => trivial

/-- All that was found are resources of the list, and the last exchange was an inspection. -/
theorem inspectAll_conducted {refs : List SandboxRef} :
    Conducted options directory key (inspectAll refs) h fun found h' =>
      (∀ entry ∈ found, entry.1 ∈ refs) ∧ (found ≠ [] → ∃ (ref : SandboxRef)
        (r : sandboxApi.Answer (.inspect ref)) (earlier : SandboxHistory),
        h' = ⟨.inspect ref, r⟩ :: earlier ∧ h <:+ earlier) := by
  have hloop : Conducted options directory key (inspectAll refs) h fun found h' =>
      h <:+ h' ∧ (∀ entry ∈ found, entry.1 ∈ refs) ∧ (found ≠ [] → ∃ (ref : SandboxRef)
        (r : sandboxApi.Answer (.inspect ref)) (earlier : SandboxHistory),
        h' = ⟨.inspect ref, r⟩ :: earlier ∧ h <:+ earlier) := by
    refine Conducted.foldEach ⟨List.suffix_refl h, by simp, by simp⟩ ?_
    rintro found ref h₁ ⟨hsub, hfound, -⟩ href
    refine (inspect_conducted ref).andThen ?_
    rintro inspection h₂ - ⟨r, rfl⟩
    have hlast : ∃ (inspected : SandboxRef) (r' : sandboxApi.Answer (.inspect inspected))
        (earlier : SandboxHistory), (⟨.inspect ref, r⟩ :: h₁ : SandboxHistory) =
          ⟨.inspect inspected, r'⟩ :: earlier ∧ h <:+ earlier := ⟨ref, r, h₁, rfl, hsub⟩
    have hsub' : h <:+ ⟨.inspect ref, r⟩ :: h₁ := hsub.trans (List.suffix_cons _ _)
    cases present inspection with
    | none => exact ⟨hsub', hfound, fun _ => hlast⟩
    | some i =>
      refine ⟨hsub', fun entry hentry => ?_, fun _ => hlast⟩
      rcases List.mem_append.mp hentry with hentry | hentry
      · exact hfound entry hentry
      · rw [List.mem_singleton.mp hentry]
        exact href
  exact hloop.mono fun _ _ _ hf => hf.2

theorem destroyDuplicates_conducted {duplicates : List (SandboxRef × SandboxInspection)}
    (hmay : ∀ entry ∈ duplicates, MayDestroy key h entry.1) :
    Conducted options directory key (destroyDuplicates duplicates) h fun _ _ => True := by
  have hloop : Conducted options directory key (destroyDuplicates duplicates) h fun _ h' =>
      ∀ entry ∈ duplicates, MayDestroy key h' entry.1 := by
    refine Conducted.foldEach hmay fun _ entry h₁ hmay hentry => ?_
    exact Conducted.step (.destroy entry.1) (hmay entry hentry) fun receipt _ =>
      fun other hother => .again (hmay other hother)
  exact hloop.mono fun _ _ _ _ => trivial

theorem retain_conducted {lease : SandboxLease}
    {inspections : List (SandboxRef × SandboxInspection)}
    (hkey : ∀ entry ∈ inspections, key entry.1 = lease.provisioningKey) :
    Conducted options directory key (retain lease inspections) h fun ref h' =>
      key ref = lease.provisioningKey ∧ (inspections ≠ [] → h' = h) := by
  cases inspections with
  | nil =>
    exact Conducted.last (.create lease.provider lease.rebuiltSpec) trivial fun ref hr =>
      ⟨hr.create, fun hne => absurd rfl hne⟩
  | cons kept rest => exact ⟨hkey kept List.mem_cons_self, fun _ => rfl⟩

theorem boundExternalId_conducted (bound : Option SandboxLease) (leaseId : ObjectId) :
    Conducted options directory key (boundExternalId bound leaseId) h fun _ _ => True := by
  unfold boundExternalId
  split
  · trivial
  · exact Conducted.step (.findLease leaseId) trivial fun _ _ => trivial

theorem rebind_conducted {lease : SandboxLease} (saw : Saw h lease) :
    Conducted options directory key (rebind options lease) h fun _ _ => True := by
  refine Conducted.step (.list lease.provider _) trivial fun refs hrefs => ?_
  have hkey := hrefs.list rfl
  refine inspectAll_conducted.andThen fun found h₁ hsub ⟨hfound, hlast⟩ => ?_
  have hmem : ∀ entry ∈ found.insertionSort fun left right => keptBefore options left right,
      key entry.1 = lease.provisioningKey := fun entry hentry =>
    hkey _ (hfound entry ((List.perm_insertionSort ..).mem_iff.mp hentry))
  refine (retain_conducted hmem).andThen fun retained h₂ hsub₂ ⟨hretained, hsame⟩ => ?_
  have hdestroy : ∀ entry ∈
      (found.insertionSort fun left right => keptBefore options left right).tail,
      MayDestroy key h₂ entry.1 := by
    intro entry hentry
    have hentry' := List.mem_of_mem_tail hentry
    have hne : found ≠ [] :=
      List.ne_nil_of_mem ((List.perm_insertionSort ..).mem_iff.mp hentry')
    obtain ⟨ref, r, earlier, rfl, hearlier⟩ := hlast hne
    rw [hsame (List.ne_nil_of_mem hentry')]
    exact .duplicate ((saw.cons _).mono hearlier) (hmem entry hentry')
  refine (destroyDuplicates_conducted hdestroy).andThen fun _ h₃ hsub₃ _ => ?_
  have hsaw := (saw.cons _).mono (hsub.trans (hsub₂.trans hsub₃))
  refine Conducted.step (.bindExternalId lease._id retained) ⟨lease, hsaw, rfl, hretained⟩
    fun bound _ => ?_
  refine (boundExternalId_conducted ..).andThen fun externalId _ _ _ => ?_
  exact Conducted.ite (fun _ => trivial) fun _ => claimAndResume_conducted _

theorem reconcileProvisioning_conducted {lease : SandboxLease} (saw : Saw h lease) :
    Conducted options directory key (reconcileProvisioning options lease) h fun _ _ => True := by
  refine Conducted.ite (fun _ => trivial) fun _ => ?_
  split
  · exact rebind_conducted saw
  · rename_i ref href
    refine (inspect_conducted ref).andThen fun inspection h₁ hsub _ => ?_
    refine Conducted.ite (fun _ => ?_) fun _ => claimAndResume_conducted _
    refine Conducted.step (.clearExternalId lease._id ref) trivial fun cleared _ => ?_
    exact Conducted.ite (fun _ => trivial) fun _ => rebind_conducted ((saw.mono hsub).cons _)

theorem reconcileLive_conducted (lease : SandboxLease) :
    Conducted options directory key (reconcileLive options lease) h fun _ _ => True := by
  unfold reconcileLive
  split
  · trivial
  · rename_i ref href
    refine Conducted.ite (fun _ => trivial) fun _ => ?_
    refine (inspect_conducted ref).andThen fun inspection h₁ hsub _ => ?_
    refine Conducted.ite (fun _ => ?_) fun _ => trivial
    exact (transition_conducted (fun ht => by cases ht) fun ht => by cases ht).andThen
      fun _ _ _ _ => trivial

theorem reconcileLease_conducted {lease : SandboxLease} (saw : Saw h lease) :
    Conducted options directory key (reconcileLease options lease) h fun _ _ => True := by
  have hterminate : ∀ h', Conducted options directory key (do
      let _ ← terminate options lease._id lease.ownership
      return ()) h' fun _ _ => True := fun h' =>
    (terminate_conducted lease._id lease.ownership).andThen fun _ _ _ _ => trivial
  refine Conducted.step .now trivial fun (now : Time) _ => ?_
  refine Conducted.ite (fun _ => ?_) fun _ => ?_
  · exact (transition_conducted (fun ht => by cases ht) fun ht => by cases ht).andThen
      fun _ _ _ _ => trivial
  refine Conducted.ite (fun _ => hterminate _) fun _ => ?_
  refine Conducted.ite (fun _ => ?_) fun _ => ?_
  · split
    · trivial
    · rename_i ref href
      refine Conducted.step (.claimStaleRunning lease._id ref _)
        ⟨now, List.mem_cons_self, rfl⟩ fun claimed _ => ?_
      exact Conducted.ite (fun _ => trivial) fun _ => hterminate _
  · split
    · exact reconcileProvisioning_conducted (saw.cons _)
    · exact reconcileLive_conducted lease
    · exact reconcileLive_conducted lease
    · exact hterminate _
    · exact hterminate _
    · exact hterminate _
    · trivial
    · trivial

theorem reconcileOrphan_conducted (cutoff : ℤ) (ref : SandboxRef) :
    Conducted options directory key (reconcileOrphan cutoff ref) h fun _ _ => True := by
  refine (inspect_conducted ref).andThen fun inspection h₁ _ _ => ?_
  split
  · trivial
  · refine Conducted.ite (fun _ => trivial) fun _ => ?_
    refine Conducted.step (.findByProviderRef ref) trivial fun lease _ => ?_
    cases lease with
    | some lease => trivial
    | none => exact Conducted.step (.destroy ref) .orphan fun _ _ => trivial

theorem reconcileOrphans_conducted (kind : String) :
    Conducted options directory key (reconcileOrphans options kind) h fun _ _ => True := by
  refine Conducted.step (.list kind _) trivial fun refs _ => ?_
  refine Conducted.step .now trivial fun now _ => ?_
  exact Conducted.foldEach trivial fun _ ref _ _ _ => reconcileOrphan_conducted _ ref

theorem reconcile_conducted :
    Conducted options directory key (reconcile options) h fun _ _ => True := by
  refine Conducted.step .scanLeases trivial fun (leases : List SandboxLease) _ => ?_
  have hloop : Conducted options directory key (Prog.foldEach (fun _ lease => do
      let _ ← (reconcileLease options lease).attempt
      return ()) () leases) (⟨.scanLeases, .ok leases⟩ :: h)
      fun _ h' => ∀ lease ∈ leases, Saw h' lease := by
    refine Conducted.foldEach (fun lease hl => ⟨_, List.mem_cons_self, hl⟩)
      fun _ lease h₁ hsaw hl => ?_
    exact (reconcileLease_conducted (hsaw lease hl)).attempted
      (fun _ h₂ hsub _ other ho => (hsaw other ho).mono hsub)
      fun _ h₂ hsub other ho => (hsaw other ho).mono hsub
  refine hloop.andThen fun _ h₁ _ _ => ?_
  refine Conducted.foldEach trivial fun _ kind h₂ _ _ => ?_
  exact (reconcileOrphans_conducted kind).attempted (fun _ _ _ _ => trivial)
    fun _ _ _ => trivial

end AppBuilder.Sandbox
