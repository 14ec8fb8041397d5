import AppBuilder.Sandbox.LeaseInvariant

/-! Terminating a lease whose resource is gone: when `terminate` gets to the terminated state. -/
namespace AppBuilder.Sandbox
open Agent Async

def resourceNotFound : Failure :=
  .sandbox ⟨.notFound, "Sandbox resource not found", false, none⟩

/-- A row of the table that `LocalProcessProvider` keeps in memory. -/
structure LocalResource where
  ref : SandboxRef
  status : SandboxStatus
  provisioningKey : String
  createdAt : Time
  labels : List (String × String)

namespace LocalProcessProvider

def kind : String := "local"

def assertProvider (ref : SandboxRef) : Except Failure Unit :=
  if ref.provider ≠ kind then .error (.sandbox ⟨.ownershipMismatch,
    "Sandbox reference belongs to a different provider", false, none⟩)
  else .ok ()

def get (resources : List LocalResource) (ref : SandboxRef) : Option LocalResource :=
  resources.find? fun resource => resource.ref.externalId == ref.externalId

def inspect (resources : List LocalResource) (ref : SandboxRef) :
    Except Failure SandboxInspection := do
  assertProvider ref
  match get resources ref with
  | none => .error resourceNotFound
  | some resource => .ok ⟨resource.ref, resource.status, resource.provisioningKey,
      resource.createdAt, resource.labels⟩

/-- A row that is destroyed stays in the table, with the status `missing`. -/
def destroy (resources : List LocalResource) (ref : SandboxRef) :
    Except Failure SandboxDestroyReceipt := do
  assertProvider ref
  match get resources ref with
  | none => .ok ⟨true, true, false⟩
  | some resource =>
    if resource.status = .missing then .ok ⟨true, true, false⟩ else .ok ⟨true, false, false⟩

end LocalProcessProvider

variable {options : SandboxServiceOptions} {directory : Directory} {key : SandboxRef → String}

/-- The resource does not exist any more, as providers say it: `destroy` finds it missing, and
`inspect` reports that it is missing, or does not find it. -/
structure ReportsGone (providers : Providers key) (ref : SandboxRef) : Prop where
  destroy : providers.destroy ref = .ok ⟨true, true, false⟩
  inspect : (∃ inspection, providers.inspect ref = .ok inspection ∧ inspection.status = .missing) ∨
    providers.inspect ref = .error resourceNotFound

/-- `LocalProcessProvider` says so of a resource that it destroyed, or does not know. -/
theorem reportsGone_of_local {providers : Providers key} (resources : List LocalResource)
    {ref : SandboxRef} (hkind : ref.provider = LocalProcessProvider.kind)
    (hinspect : providers.inspect ref = LocalProcessProvider.inspect resources ref)
    (hdestroy : providers.destroy ref = LocalProcessProvider.destroy resources ref)
    (hgone : ∀ resource, LocalProcessProvider.get resources ref = some resource →
      resource.status = .missing) : ReportsGone providers ref := by
  have hassert : LocalProcessProvider.assertProvider ref = .ok () := if_neg (by simpa using hkind)
  rw [LocalProcessProvider.inspect, hassert] at hinspect
  rw [LocalProcessProvider.destroy, hassert] at hdestroy
  cases hget : LocalProcessProvider.get resources ref with
  | none =>
    rw [hget] at hinspect hdestroy
    exact ⟨hdestroy, .inr hinspect⟩
  | some resource =>
    have hmissing := hgone resource hget
    rw [hget] at hinspect hdestroy
    refine ⟨hdestroy.trans (if_pos hmissing), .inl ⟨_, hinspect, hmissing⟩⟩

/-- The lease after a transition. -/
def SandboxLease.moved (lease : SandboxLease) (set : LeasePatch) (target : SandboxLeaseState)
    (updatedAt : Time) : SandboxLease := { set.apply lease with state := target, updatedAt }

namespace SandboxWorld

variable {w : SandboxWorld key} {lease : SandboxLease}

/-- The unique index on active builds lets the lease become active again. -/
def BranchFree (w : SandboxWorld key) (lease : SandboxLease) : Prop :=
  lease.state = .failed ∨ lease.state = .lost → lease.purpose = .build →
    ∀ other ∈ w.leases, other._id ≠ lease._id → other.purpose = .build →
      other.branchId = lease.branchId → ¬ other.Occupying

/-- What the unique indexes say of a lease whose state changes. -/
theorem admits_moved_iff (set : LeasePatch) (target : SandboxLeaseState) (clock : Time)
    (hw : w.WellFormed) (hl : lease ∈ w.leases) :
    w.admits (lease.moved set target clock) = true ↔ ∀ other ∈ w.leases, other._id ≠ lease._id →
      other.purpose = .build → lease.purpose = .build → other.branchId = lease.branchId →
        other.Occupying → target ∉ OCCUPYING_SANDBOX_STATES := by
  rw [admits_iff]
  refine forall₂_congr fun other ho => forall_congr' fun hne => ?_
  have hapart := hw.apart other ho lease hl hne
  simp only [collide, Bool.or_eq_false_iff] at hapart
  obtain ⟨⟨hk, -⟩, hr⟩ := hapart
  have hkey : (lease.moved set target clock).provisioningKey = lease.provisioningKey := rfl
  have href : (lease.moved set target clock).ref? = lease.ref? := rfl
  have hpurpose : (lease.moved set target clock).purpose = lease.purpose := rfl
  have hbranch : (lease.moved set target clock).branchId = lease.branchId := rfl
  have hocc : (lease.moved set target clock).Occupying ↔ target ∈ OCCUPYING_SANDBOX_STATES := .rfl
  rw [collide, hkey, href, hk, hr, hpurpose, hbranch]
  by_cases h₁ : other.purpose = .build <;> by_cases h₂ : lease.purpose = .build <;>
    by_cases h₃ : other.branchId = lease.branchId <;> by_cases h₄ : other.Occupying <;>
    simp [h₁, h₂, h₃, h₄, hocc]

/-- The unique indexes let a lease of a free branch become terminating. -/
theorem admits_terminating (clock : Time) (hw : w.WellFormed) (hl : lease ∈ w.leases)
    (hstate : lease.state ≠ .terminated) (hfree : w.BranchFree lease) :
    w.admits (lease.moved {} .terminating clock) = true := by
  refine (admits_moved_iff _ _ _ hw hl).mpr fun other ho hne hbuild hbuild' hbranch hocc => ?_
  by_cases hgone : lease.state = .failed ∨ lease.state = .lost
  · exact absurd hocc (hfree hgone hbuild' other ho hne hbuild hbranch)
  · -- two active builds of the branch would be stored already
    have hactive : lease.Occupying := by
      rw [not_or] at hgone
      cases hs : lease.state <;>
        simp_all [SandboxLease.Occupying, OCCUPYING_SANDBOX_STATES]
    have hapart := hw.apart other ho lease hl hne
    simp [collide, hbuild, hbuild', hbranch, hocc, hactive] at hapart

end SandboxWorld

section Evaluation

variable (directory) (t : ThreadId) {w : SandboxWorld key} {lease : SandboxLease}

/-- Run a program to its end, with nothing in between. -/
abbrev run (directory : Directory) (t : ThreadId) {α : Type} (p : SandboxPromise α)
    (w : SandboxWorld key) : Except Failure α × SandboxWorld key :=
  p.evaluate (fun op w => w.exec directory t op) w

variable {α β : Type} {p : SandboxPromise α} {f : α → SandboxPromise β} {w' : SandboxWorld key}

theorem run_bind {a : α} (h : run directory t p w = (.ok a, w')) :
    run directory t (p.bind f) w = run directory t (f a) w' := Prog.evaluate_bind_ok h f

theorem run_bind_error {e : Failure} (h : run directory t p w = (.error e, w')) :
    run directory t (p.bind f) w = (.error e, w') := Prog.evaluate_bind_error h f

theorem run_perform (op : SandboxOp) (w : SandboxWorld key) :
    run directory t (perform op) w = w.exec directory t op :=
  Prog.evaluate_perform (I := sandboxApi) (fun op w => SandboxWorld.exec directory t op w) op w

/-- A transition of a stored lease. -/
theorem run_transition (source : List SandboxLeaseState) (target : SandboxLeaseState)
    (set : LeasePatch) (hstored : w.lease? lease._id = some lease) (hmem : lease.state ∈ source)
    (hallowed : ∀ state ∈ source, target ∈ SANDBOX_ALLOWED_TRANSITIONS state) :
    run directory t (transition lease._id source target set) w =
      if w.admits (lease.moved set target w.clock) then
        (.ok (some (lease.moved set target w.clock)), { w with
          leases := Store.modifyById w.leases lease._id fun _ => lease.moved set target w.clock })
      else (.error .duplicateKey, w) := by
  have hgood : ¬ (source = [] ∨ ∃ state ∈ source, target ∉ SANDBOX_ALLOWED_TRANSITIONS state) := by
    rintro (he | ⟨state, hs, hnot⟩)
    · exact List.ne_nil_of_mem hmem he
    · exact hnot (hallowed state hs)
  have hperform : transition lease._id source target set =
      perform (.transition lease._id source target set) := if_neg hgood
  have haccepts : source.contains lease.state = true := by simpa using hmem
  rw [hperform]
  refine (run_perform directory t (.transition lease._id source target set) w).trans ?_
  simp only [SandboxWorld.exec, SandboxWorld.updateLease, hstored, haccepts, if_true]
  rfl

theorem moved_change {set : LeasePatch} {target : SandboxLeaseState} {clock : Time}
    (hallowed : target ∈ SANDBOX_ALLOWED_TRANSITIONS lease.state) :
    lease.Change (lease.moved set target clock) := ⟨rfl, rfl, .inr hallowed, .inl rfl⟩

/-- The world after a transition that the unique indexes admit. -/
theorem moved_world {set : LeasePatch} {target : SandboxLeaseState} (hw : w.WellFormed)
    (hstored : w.lease? lease._id = some lease)
    (hallowed : target ∈ SANDBOX_ALLOWED_TRANSITIONS lease.state)
    (hadmits : w.admits (lease.moved set target w.clock) = true)
    (hw' : w' = { w with
      leases := Store.modifyById w.leases lease._id fun _ => lease.moved set target w.clock }) :
    w'.WellFormed ∧ w'.lease? lease._id = some (lease.moved set target w.clock) := by
  have hreplaces : w.Replaces w' lease (lease.moved set target w.clock) :=
    ⟨hstored, hadmits, by rw [hw'], by rw [hw']⟩
  have hbinds := hw.binds lease (SandboxWorld.mem_of_lease? hstored)
  refine ⟨hreplaces.wellFormed rfl hw fun ref href => ?_, ?_⟩
  · have hne := hbinds ref href
    exact ⟨(moved_change hallowed).evolves.state.not_reserved hne.1, hne.2⟩
  · rw [hreplaces.lease?_eq rfl, if_pos rfl]

/-- The last step of a termination. -/
theorem run_terminatedAt (hw : w.WellFormed) (hstored : w.lease? lease._id = some lease)
    (hstate : lease.state = .terminating) :
    ∃ final w', run directory t (terminatedAt lease._id) w = (.ok (some final), w') ∧
      final.state = .terminated ∧ final._id = lease._id ∧ final.ref? = lease.ref? ∧
      w'.lease? lease._id = some final ∧ w'.providers = w.providers := by
  have hl := SandboxWorld.mem_of_lease? hstored
  have hadmits : w.admits (lease.moved { terminatedAt := some w.clock } .terminated w.clock) =
      true := by
    refine (SandboxWorld.admits_moved_iff _ _ _ hw hl).mpr fun _ _ _ _ _ _ _ => ?_
    simp [OCCUPYING_SANDBOX_STATES]
  have hrun := run_transition directory t [.terminating] .terminated
    { terminatedAt := some w.clock } hstored (by simp [hstate])
    (by simp [SANDBOX_ALLOWED_TRANSITIONS])
  rw [if_pos hadmits] at hrun
  obtain ⟨-, hstored'⟩ := moved_world hw hstored
    (by simp [hstate, SANDBOX_ALLOWED_TRANSITIONS]) hadmits rfl
  exact ⟨_, _, (run_bind directory t (run_perform directory t .now w)).trans hrun, rfl, rfl, rfl,
    hstored', rfl⟩

/-- The first step of a termination. -/
theorem run_enterTerminating (hw : w.WellFormed) (hstored : w.lease? lease._id = some lease)
    (hstate : lease.state ≠ .terminated) (hfree : w.BranchFree lease) :
    ∃ next w', run directory t (enterTerminating lease) w = (.ok next, w') ∧
      next.state = .terminating ∧ next._id = lease._id ∧ next.provider = lease.provider ∧
      next.ref? = lease.ref? ∧ w'.WellFormed ∧ w'.lease? lease._id = some next ∧
      w'.providers = w.providers := by
  by_cases hterminating : lease.state = .terminating
  · refine ⟨lease, w, ?_, hterminating, rfl, rfl, rfl, hw, hstored, rfl⟩
    rw [enterTerminating, if_neg (not_not.mpr hterminating)]
    rfl
  have hallowed : SandboxLeaseState.terminating ∈ SANDBOX_ALLOWED_TRANSITIONS lease.state := by
    cases hs : lease.state <;> simp_all [SANDBOX_ALLOWED_TRANSITIONS]
  have hadmits := SandboxWorld.admits_terminating w.clock hw
    (SandboxWorld.mem_of_lease? hstored) hstate hfree
  have hrun := run_transition directory t [lease.state] .terminating {} hstored (by simp)
    (by simpa using hallowed)
  rw [if_pos hadmits] at hrun
  obtain ⟨hw', hstored'⟩ := moved_world hw hstored hallowed hadmits rfl
  have hfirst := run_bind directory t (f := fun next => orRequire next lease._id) hrun
  have henter : enterTerminating lease = _ := if_pos hterminating
  exact ⟨lease.moved {} .terminating w.clock, _, (congrArg (run directory t · w) henter).trans
    hfirst, rfl, rfl, rfl, rfl, hw', hstored', rfl⟩

/-- The first step fails on another active build of the branch. -/
theorem run_enterTerminating_refused (hw : w.WellFormed)
    (hstored : w.lease? lease._id = some lease) (hbusy : ¬ w.BranchFree lease) :
    run directory t (enterTerminating lease) w = (.error .duplicateKey, w) := by
  simp only [SandboxWorld.BranchFree, Classical.not_imp, not_forall, not_not] at hbusy
  obtain ⟨hgone, hbuild, other, ho, hne, hbuild', hbranch, hocc⟩ := hbusy
  have hterminating : lease.state ≠ .terminating := by
    rcases hgone with hs | hs <;> simp [hs]
  have hallowed : SandboxLeaseState.terminating ∈ SANDBOX_ALLOWED_TRANSITIONS lease.state := by
    rcases hgone with hs | hs <;> simp [hs, SANDBOX_ALLOWED_TRANSITIONS]
  have hadmits : ¬ w.admits (lease.moved {} .terminating w.clock) = true := by
    intro hadmits
    have hl := SandboxWorld.mem_of_lease? hstored
    refine (SandboxWorld.admits_moved_iff _ _ _ hw hl).mp hadmits other ho hne hbuild' hbuild
      hbranch hocc ?_
    simp [OCCUPYING_SANDBOX_STATES]
  have hrun := run_transition directory t [lease.state] .terminating {} hstored (by simp)
    (by simpa using hallowed)
  rw [if_neg hadmits] at hrun
  rw [enterTerminating, if_pos hterminating]
  exact run_bind_error directory t hrun

end Evaluation

/-- The ownership that `assertOwnership` accepts. -/
def SandboxOwnership.Owns (expected : SandboxOwnership) (lease : SandboxLease) : Prop :=
  lease.workspaceId = expected.workspaceId ∧ lease.projectId = expected.projectId ∧
    lease.branchId = expected.branchId ∧ lease.runId = expected.runId.get? ∧
    lease.snapshotId = expected.snapshotId.get? ∧ lease.purpose = expected.purpose

/-- Every provider answers with a report on the resource, where it could throw as well. -/
def Inspects (providers : Providers key) (lease : SandboxLease) : Prop :=
  ∀ ref, lease.ref? = some ref → ∃ inspection, providers.inspect ref = .ok inspection

section Terminate

variable (directory) (t : ThreadId) {w : SandboxWorld key} {lease : SandboxLease} {expected : SandboxOwnership}

theorem run_requireLease (hstored : w.lease? lease._id = some lease) :
    run directory t (requireLease lease._id) w = (.ok lease, w) := by
  have hfind : run directory t (perform (.findLease lease._id)) w = (.ok (some lease), w) := by
    rw [run_perform, SandboxWorld.exec, hstored]
  exact run_bind directory t hfind

theorem assertOwnership_owns (howns : expected.Owns lease) :
    assertOwnership lease expected = .pure () := by
  obtain ⟨h₁, h₂, h₃, h₄, h₅, h₆⟩ := howns
  rw [assertOwnership]
  exact if_neg (by simp [h₁, h₂, h₃, h₄, h₅, h₆])

/-- What is left of `terminate` after the receipt of `destroy`. -/
def confirmGone (leaseId : ObjectId) (ref : SandboxRef) (receipt : SandboxDestroyReceipt) :
    SandboxPromise SandboxLease :=
  if receipt.pending then requireLease leaseId
  else do
    let inspection : SandboxInspection ← perform (.inspect ref)
    if inspection.status ≠ .missing then requireLease leaseId
    else
      let done ← terminatedAt leaseId
      orRequire done leaseId

/-- What is left of `terminate` once the lease is terminating. -/
def finishTerminating (options : SandboxServiceOptions) (lease : SandboxLease) :
    SandboxPromise SandboxLease :=
  if lease.state ≠ .terminating then
    sandboxError .invalidState "Sandbox Lease cannot be terminated"
  else match lease.ref? with
    | none => do
      let done ← terminatedAt lease._id
      orRequire done lease._id
    | some ref => do
      requireProvider options lease.provider
      let receipt : SandboxDestroyReceipt ← perform (.destroy ref)
      confirmGone lease._id ref receipt

theorem run_terminate (hstored : w.lease? lease._id = some lease)
    (hstate : lease.state ≠ .terminated) (howns : expected.Owns lease) :
    run directory t (terminate options lease._id expected) w =
      run directory t ((enterTerminating lease).bind (finishTerminating options)) w := by
  refine (run_bind directory t (run_requireLease directory t hstored)).trans ?_
  rw [assertOwnership_owns howns]
  exact congrArg (run directory t · w) (if_neg hstate)

/-- The world in which a provider has reported on a resource. -/
theorem SandboxWorld.WellFormed.reported (hw : w.WellFormed)
    (reports : List (ThreadId × ProviderReport)) : { w with reports }.WellFormed :=
  ⟨hw.fresh, hw.ids, hw.apart, hw.binds⟩

/-- The end of a termination whose lease has no resource. -/
theorem run_finish_unbound (options : SandboxServiceOptions) (hw : w.WellFormed) (hstored : w.lease? lease._id = some lease)
    (hstate : lease.state = .terminating) (hbound : lease.ref? = none) :
    ∃ final w', run directory t (finishTerminating options lease) w = (.ok final, w') ∧
      final.state = .terminated ∧ final._id = lease._id := by
  obtain ⟨final, w', hrun, hfinal, hid, -⟩ := run_terminatedAt directory t hw hstored
    hstate
  refine ⟨final, w', ?_, hfinal, hid⟩
  have hdone := run_bind directory t (f := fun done => orRequire done lease._id) hrun
  rw [finishTerminating, if_neg (not_not.mpr hstate), hbound]
  exact hdone

/-- The end of a termination whose resource is gone; the inspection decides. -/
theorem run_finish_bound {ref : SandboxRef} (hw : w.WellFormed)
    (hstored : w.lease? lease._id = some lease) (hstate : lease.state = .terminating)
    (hbound : lease.ref? = some ref) (hkind : options.kinds.contains lease.provider = true)
    (hgone : ReportsGone w.providers ref) :
    (∃ inspection final w', w.providers.inspect ref = .ok inspection ∧
      run directory t (finishTerminating options lease) w = (.ok final, w') ∧
        final.state = .terminated ∧ final._id = lease._id) ∨
    ∃ w', w.providers.inspect ref = .error resourceNotFound ∧
      run directory t (finishTerminating options lease) w = (.error resourceNotFound, w') := by
  have hrequire : requireProvider options lease.provider = .pure () := if_pos hkind
  have hdestroy : run directory t (perform (.destroy ref)) w =
      (.ok ⟨true, true, false⟩, { w with reports := (t, ⟨ref, true, true⟩) :: w.reports }) := by
    rw [run_perform]
    simp only [SandboxWorld.exec, hgone.destroy]
  have hfinish : run directory t (finishTerminating options lease) w =
      run directory t (confirmGone lease._id ref ⟨true, true, false⟩)
        { w with reports := (t, ⟨ref, true, true⟩) :: w.reports } := by
    rw [finishTerminating, if_neg (not_not.mpr hstate), hbound]
    dsimp only
    rw [hrequire]
    exact run_bind directory t (f := confirmGone lease._id ref) hdestroy
  rcases hgone.inspect with ⟨inspection, hinspect, hmissing⟩ | hinspect
  · left
    have hreport : run directory t (perform (.inspect ref))
        { w with reports := (t, ⟨ref, true, true⟩) :: w.reports } = (.ok inspection, { w with
          reports := (t, ⟨ref, true, false⟩) :: (t, ⟨ref, true, true⟩) :: w.reports }) := by
      rw [run_perform]
      simp [SandboxWorld.exec, hinspect, hmissing]
    obtain ⟨final, w', hdone, hfinal, hid, -⟩ := run_terminatedAt directory t
      (hw.reported ((t, ⟨ref, true, false⟩) :: (t, ⟨ref, true, true⟩) :: w.reports)) hstored hstate
    refine ⟨inspection, final, w', hinspect, hfinish.trans ?_, hfinal, hid⟩
    refine (run_bind directory t hreport).trans ?_
    rw [if_neg (not_not.mpr hmissing)]
    exact run_bind directory t hdone
  · right
    have hreport : run directory t (perform (.inspect ref))
        { w with reports := (t, ⟨ref, true, true⟩) :: w.reports } = (.error resourceNotFound,
          { w with reports := (t, ⟨ref, true, true⟩) :: w.reports }) := by
      rw [run_perform]
      simp [SandboxWorld.exec, hinspect]
    exact ⟨_, hinspect, hfinish.trans (run_bind_error directory t hreport)⟩

end Terminate

section Claim

/-- For a lease that is not terminated and whose resource is gone, `terminate` gets to the
terminated state exactly when the branch index lets the lease become terminating, and the provider
does not throw in place of reporting that the resource is missing. -/
theorem terminate_of_gone_iff (options : SandboxServiceOptions) (directory : Directory)
    {w : SandboxWorld key} {ls : List (Step key)} {c : Running key} (hw : w.Initial)
    (hplay : (sandboxes options directory).play (.initial w) ls = some c) (t : ThreadId)
    {lease : SandboxLease} (hstored : c.state.lease? lease._id = some lease)
    (hstate : lease.state ≠ .terminated) (hkind : options.kinds.contains lease.provider = true)
    (hgone : ∀ ref, lease.ref? = some ref → ReportsGone c.state.providers ref)
    {expected : SandboxOwnership} (howns : expected.Owns lease) :
    (∃ final w', run directory t (terminate options lease._id expected) c.state = (.ok final, w') ∧
      final.state = .terminated ∧ final._id = lease._id) ↔
    c.state.BranchFree lease ∧ Inspects c.state.providers lease := by
  have hholds := Discipline.holds_play (D := leaseDiscipline options directory key)
    (Discipline.holds_initial hw.wellFormed) (Machine.along_true _ ls) hplay
  have hc : c.state.WellFormed := hholds.1
  rw [run_terminate directory t hstored hstate howns]
  by_cases hfree : c.state.BranchFree lease
  · obtain ⟨next, w', henter, hnext, hid, hprovider, href, hw', hstored', hproviders⟩ :=
      run_enterTerminating directory t hc hstored hstate hfree
    rw [run_bind directory t henter]
    rw [← hid] at hstored' ⊢
    cases hbound : lease.ref? with
    | none =>
      have hfinish := run_finish_unbound directory t options hw' hstored'
        hnext (href.trans hbound)
      refine ⟨fun _ => ⟨hfree, fun ref hr => ?_⟩, fun _ => hfinish⟩
      rw [hbound] at hr
      cases hr
    | some ref =>
      have hfinish := run_finish_bound directory t hw' hstored' hnext
        (href.trans hbound) (hprovider ▸ hkind) (hproviders ▸ hgone ref hbound)
      rw [hproviders] at hfinish
      rcases hfinish with ⟨inspection, final, w'', hinspect, hfinish⟩ | ⟨w'', hinspect, hfinish⟩
      · refine ⟨fun _ => ⟨hfree, fun other hr => ?_⟩, fun _ => ⟨final, w'', hfinish⟩⟩
        cases hbound.symm.trans hr
        exact ⟨inspection, hinspect⟩
      · constructor
        · rintro ⟨final, w₁, hrun, -⟩
          rw [hfinish] at hrun
          cases hrun
        · rintro ⟨-, hinspects⟩
          obtain ⟨inspection, hok⟩ := hinspects ref hbound
          rw [hinspect] at hok
          cases hok
  · have hrefused := run_bind_error directory t (f := finishTerminating options)
      (run_enterTerminating_refused directory t hc hstored hfree)
    rw [hrefused]
    constructor
    · rintro ⟨final, w₁, hrun, -⟩
      cases hrun
    · rintro ⟨hfree', -⟩
      exact absurd hfree' hfree

end Claim

section Runs

private def sampleOwnership : SandboxOwnership := ⟨1, 2, 3, .value 5, .absent, .build⟩

/-- A build is made, and then the providers change. -/
private def builtThen (providers : Providers sampleKey) : List (Step sampleKey) :=
  .spawn (.createBuildSandbox sampleInput) :: List.replicate 28 (.advance 0 .done) ++
    [.act (.change providers)]

private theorem builtThen_providers {providers : Providers sampleKey} {c : Running sampleKey}
    (hplay : sampleSandboxes.play (.initial sampleWorld) (builtThen providers) = some c) :
    c.state.providers = providers := by
  obtain ⟨d, -, hd⟩ := Option.bind_eq_some_iff.mp (Machine.play_append .. ▸ hplay)
  obtain ⟨e, he, hlast⟩ := Machine.play_cons.mp hd
  cases hlast
  cases he
  rfl

private def goneProviders : Providers sampleKey :=
  sampleProviders 'a' [sampleRef 'a' "local" "build:5:1"]

/-- The worker has restarted, and `LocalProcessProvider` knows no resource. -/
private def restartedProviders : Providers sampleKey :=
  { sampleProviders 'a' [] with
    inspect := LocalProcessProvider.inspect []
    destroy := LocalProcessProvider.destroy [] }

/-- What the runs below find after the build. -/
private def builtLease (c : Running sampleKey) : Bool :=
  (c.state.lease? 6).any fun lease => lease.state == .ready && lease.provider == "local" &&
    lease.ref? == some (sampleRef 'a' "local" "build:5:1") &&
      decide (lease.workspaceId = 1 ∧ lease.projectId = 2 ∧ lease.branchId = 3 ∧
        lease.runId = some 5 ∧ lease.snapshotId = none ∧ lease.purpose = .build)

private theorem builtLease_spec {c : Running sampleKey} (h : builtLease c = true) :
    ∃ lease, c.state.lease? lease._id = some lease ∧ lease._id = 6 ∧ lease.state = .ready ∧
      lease.provider = "local" ∧ lease.ref? = some (sampleRef 'a' "local" "build:5:1") ∧
        sampleOwnership.Owns lease := by
  obtain ⟨lease, hl, h⟩ := (Option.any_eq_true ..).mp h
  simp only [Bool.and_eq_true, beq_iff_eq, decide_eq_true_eq] at h
  have hid := SandboxWorld.lease?_id hl
  obtain ⟨⟨⟨hready, hprovider⟩, href⟩, howns⟩ := h
  exact ⟨lease, hid ▸ hl, hid, hready, hprovider, href, howns⟩

theorem built_lease_terminates : ∃ c, sampleSandboxes.play (.initial sampleWorld)
      (builtThen goneProviders) = some c ∧
    ∃ final w', run sampleDirectory 0 (terminate sampleOptions 6 sampleOwnership) c.state =
      (.ok final, w') ∧ final.state = .terminated ∧ final._id = 6 := by
  have hrun : (sampleSandboxes.play (.initial sampleWorld) (builtThen goneProviders)).any
      builtLease = true := by decide +kernel
  obtain ⟨c, hplay, hbuilt⟩ := (Option.any_eq_true ..).mp hrun
  obtain ⟨lease, hstored, hid, hready, hprovider, href, howns⟩ := builtLease_spec hbuilt
  have hproviders := builtThen_providers hplay
  have hgone : ∀ ref, lease.ref? = some ref → ReportsGone c.state.providers ref := by
    intro ref hr
    cases href.symm.trans hr
    rw [hproviders]
    exact ⟨by decide, .inl ⟨_, rfl, by decide⟩⟩
  refine ⟨c, hplay, ?_⟩
  rw [← hid]
  refine (terminate_of_gone_iff sampleOptions sampleDirectory sampleWorld_initial hplay 0 hstored
    (by simp [hready]) (by rw [hprovider]; decide) hgone howns).mpr ⟨?_, ?_⟩
  · rintro (hs | hs) <;> simp [hready] at hs
  · intro ref hr
    cases href.symm.trans hr
    rw [hproviders]
    exact ⟨_, rfl⟩

theorem restarted_worker_cannot_terminate : ¬ ∀ (key : SandboxRef → String)
    (options : SandboxServiceOptions) (directory : Directory) (w : SandboxWorld key)
    (ls : List (Step key)) (c : Running key) (t : ThreadId) (lease : SandboxLease)
    (expected : SandboxOwnership), w.Initial →
    (sandboxes options directory).play (.initial w) ls = some c →
    c.state.lease? lease._id = some lease → lease.state ≠ .terminated →
    options.kinds.contains lease.provider = true →
    (∀ ref, lease.ref? = some ref → ReportsGone c.state.providers ref) → expected.Owns lease →
    ∃ final w', run directory t (terminate options lease._id expected) c.state = (.ok final, w') ∧
      final.state = .terminated := by
  intro h
  have hrun : (sampleSandboxes.play (.initial sampleWorld) (builtThen restartedProviders)).any
      (fun c => builtLease c && !(run sampleDirectory 0
        (terminate sampleOptions 6 sampleOwnership) c.state).1.isOk) = true := by decide +kernel
  obtain ⟨c, hplay, hc⟩ := (Option.any_eq_true ..).mp hrun
  obtain ⟨hbuilt, hfails⟩ := Bool.and_eq_true_iff.mp hc
  obtain ⟨lease, hstored, hid, hready, hprovider, href, howns⟩ := builtLease_spec hbuilt
  have hproviders := builtThen_providers hplay
  have hgone : ∀ ref, lease.ref? = some ref → ReportsGone c.state.providers ref := by
    intro ref hr
    cases href.symm.trans hr
    rw [hproviders]
    exact reportsGone_of_local [] (by decide) rfl rfl fun _ hget => by cases hget
  obtain ⟨final, w', hfinal, -⟩ := h _ sampleOptions sampleDirectory sampleWorld _ c 0 lease
    sampleOwnership sampleWorld_initial hplay hstored (by simp [hready])
    (by rw [hprovider]; decide) hgone howns
  rw [hid] at hfinal
  rw [hfinal] at hfails
  cases hfails

end Runs

end AppBuilder.Sandbox
