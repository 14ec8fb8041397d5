import AppBuilder.Sandbox.LeaseInvariant

/-! A lease that is ready or running is bound to a resource with all files of its artifact. -/
namespace AppBuilder.Sandbox
open Agent Async

/-- Commands may run in the lease's resource. -/
def SandboxLease.Ready (lease : SandboxLease) : Prop :=
  lease.state = .ready ∨ lease.state = .running

namespace SandboxWorld

variable {key : SandboxRef → String} {w w' : SandboxWorld key}

/-- The bound resource was completely written with the files of the lease's artifact. -/
def HydratedLease (directory : Directory) (w : SandboxWorld key) (lease : SandboxLease) : Prop :=
  ∃ ref, lease.ref? = some ref ∧ ∃ t, (t, ref, lease.sourceFiles directory) ∈ w.written

def Hydrated (directory : Directory) (w : SandboxWorld key) : Prop :=
  ∀ lease ∈ w.leases, lease.Ready → w.HydratedLease directory lease

variable {directory : Directory}

theorem HydratedLease.mono {lease : SandboxLease} (h : w.HydratedLease directory lease)
    (hw : w.written <:+ w'.written) : w'.HydratedLease directory lease := by
  obtain ⟨ref, href, t, ht⟩ := h
  exact ⟨ref, href, t, hw.subset ht⟩

theorem sourceFiles_of_record {a b : SandboxLease}
    (h : b.toSandboxReservationRecord = a.toSandboxReservationRecord) :
    b.sourceFiles directory = a.sourceFiles directory := by
  rw [SandboxLease.sourceFiles, SandboxLease.sourceFiles, h]

theorem mem_of_newestWritten {t : ThreadId} {entry : SandboxRef × List SandboxFile}
    (h : w.newestWritten t = some entry) : (t, entry) ∈ w.written := by
  obtain ⟨found, hf, rfl⟩ := Option.map_eq_some_iff.mp h
  have ht : found.1 = t := by simpa using List.find?_some hf
  exact ht ▸ List.mem_of_find?_eq_some hf

/-- The resource that `t` has written last is the one that `lease` is bound to. -/
def BoundToWritten (w : SandboxWorld key) (t : ThreadId) (lease : SandboxLease) : Prop :=
  lease.ref? = (w.newestWritten t).map (·.1)

instance (w : SandboxWorld key) (t : ThreadId) (lease : SandboxLease) :
    Decidable (w.BoundToWritten t lease) := inferInstanceAs (Decidable (_ = _))

/-- A lease becomes ready as the call that hydrated it left it. -/
theorem hydrated_of_mayReady {t : ThreadId} {h : SandboxHistory} {lease : SandboxLease}
    (hr : w.Recalls t h)
    (hstored : w.lease? lease._id = some lease) (hmay : MayReady directory h lease._id)
    (hbound : w.BoundToWritten t lease) : w.HydratedLease directory lease := by
  generalize hid : lease._id = leaseId at hmay
  cases hmay with
  | @hydrated h seen ref a b saw bound =>
    obtain ⟨later, hl, hev⟩ := hr.saw seen (((saw.cons _).cons _).cons _)
    rw [← hid, hstored] at hl
    cases hl
    have hwrote := hr.wrote (ref, seen.sourceFiles directory) rfl
    rw [BoundToWritten, hwrote] at hbound
    refine ⟨ref, hbound, t, ?_⟩
    rw [sourceFiles_of_record hev.record]
    exact mem_of_newestWritten hwrote

/-- A lease becomes ready only by a transition to the ready state. -/
theorem ready_of_update {op : SandboxOp} {u : LeaseUpdate} (hu : op.update? = some u)
    (hop : op.Allowed) {lease : SandboxLease} (accepted : u.accepts lease = true)
    {updatedAt : Time} (hready : SandboxLease.Ready { u.patch lease with updatedAt }) :
    SandboxLease.ref? { u.patch lease with updatedAt } = lease.ref? ∧ (lease.Ready ∨
      ∃ source set, op = .transition u.leaseId source .ready set ∧ lease.state ∈ source) := by
  cases op with
  | transition leaseId source target set =>
    cases hu
    have hmem : lease.state ∈ source := by simpa using accepted
    rcases hready with rfl | rfl
    · exact ⟨rfl, .inr ⟨source, set, rfl, hmem⟩⟩
    · have hallowed := hop lease.state hmem
      refine ⟨rfl, .inl (.inl ?_)⟩
      cases hstate : lease.state <;> simp [hstate, SANDBOX_ALLOWED_TRANSITIONS] at hallowed ⊢
  | bindExternalId leaseId ref =>
    cases hu
    simp only [Bool.and_eq_true, beq_iff_eq] at accepted
    simp [SandboxLease.Ready, accepted.1.1] at hready
  | clearExternalId leaseId ref =>
    cases hu
    simp only [Bool.and_eq_true, beq_iff_eq] at accepted
    simp [SandboxLease.Ready, accepted.1] at hready
  | claimProvisioning leaseId expectedUpdatedAt claimedAt =>
    cases hu
    exact ⟨rfl, .inl hready⟩
  | heartbeatRunning leaseId ref heartbeatAt =>
    cases hu
    exact ⟨rfl, .inl hready⟩
  | claimStaleRunning leaseId ref heartbeatCutoff =>
    cases hu
    simp [SandboxLease.Ready] at hready
  | _ => cases hu

end SandboxWorld

section Claim

variable (options : SandboxServiceOptions) (directory : Directory) {key : SandboxRef → String}

/-- When a call makes its lease ready, the lease is bound to the resource that it has written. -/
def ReadiesWritten (c : Running key) (l : Step key) : Prop :=
  ∀ t o leaseId source set lease, l = .advance t o →
    c.applies l = some (.transition leaseId source .ready set) →
    c.state.lease? leaseId = some lease → lease.state ∈ source →
    c.state.BoundToWritten t lease

variable {options directory}

/-- The step lemma. -/
theorem hydrated_step {c : Running key} {l : Step key} {w' : SandboxWorld key}
    (hc : (leaseDiscipline options directory key).Holds c) (hh : c.state.Hydrated directory)
    (hok : ReadiesWritten c l) (hstep : WorldStep options directory key c l w') :
    w'.Hydrated directory := by
  have hw : c.state.WellFormed := hc.1
  cases hstep with
  | untouched leases clock written reports =>
    intro lease hl hready
    rw [leases] at hl
    exact (hh lease hl hready).mono (written ▸ List.suffix_refl _)
  | performs t o op h hl happlies hrecalls hconduct heq =>
    have hwritten := (SandboxWorld.exec_moves directory t hconduct.allowed c.state).written
    rw [← heq] at hwritten
    have heffect := SandboxWorld.exec_effect directory t op c.state
    rw [← heq] at heffect
    intro lease hlease hready
    cases heffect with
    | unchanged leases nextId =>
      rw [leases] at hlease
      exact (hh lease hlease hready).mono hwritten
    | created record _ _ admitted leases nextId =>
      rw [leases, List.mem_append, List.mem_singleton] at hlease
      rcases hlease with hlease | rfl
      · exact (hh lease hlease hready).mono hwritten
      · simp [SandboxLease.Ready, SandboxWorld.reservedLease] at hready
    | replaced u hu old leaseId accepted replaces =>
      rcases replaces.mem_leases.mp hlease with rfl | ⟨hlease, -⟩
      · have hc := SandboxOp.update_change hu hconduct.allowed accepted c.state.clock
        obtain ⟨hsame, hbefore⟩ := SandboxWorld.ready_of_update hu hconduct.allowed accepted hready
        have hold : c.state.HydratedLease directory old := by
          rcases hbefore with hready | ⟨source, set, rfl, hmem⟩
          · exact hh old (SandboxWorld.mem_of_lease? replaces.stored) hready
          · have hmay : MayReady directory h u.leaseId := hconduct.2.1 rfl
            have hstored := replaces.stored
            have hbound := hok t o _ source set old hl happlies (leaseId ▸ hstored) hmem
            exact SandboxWorld.hydrated_of_mayReady hrecalls hstored (leaseId ▸ hmay) hbound
        obtain ⟨ref, href, s, hs⟩ := hold
        refine ⟨ref, hsame.trans href, s, hwritten.subset ?_⟩
        rw [SandboxWorld.sourceFiles_of_record hc.record]
        exact hs
      · exact (hh lease hlease hready).mono hwritten

/-- In a run in which every lease becomes ready with the resource that was written for it, no
command runs in a resource without the files of the artifact. -/
theorem ready_leases_hydrated (options : SandboxServiceOptions) (directory : Directory)
    {w : SandboxWorld key} {ls : List (Step key)} {c : Running key} (hw : w.Initial)
    (hok : (sandboxes options directory).Along ReadiesWritten (.initial w) ls)
    (h : (sandboxes options directory).play (.initial w) ls = some c) :
    c.state.Hydrated directory :=
  (sandbox_invariant (fun _ _ _ => hydrated_step) hw.wellFormed
    (by simp [SandboxWorld.Hydrated, hw.leases]) hok h).2

end Claim

section Runs

private def readiesWritten (c : Running sampleKey) (l : Step sampleKey) : Bool :=
  match l, c.applies l with
  | .advance t _, some (.transition _ _ .ready _) =>
    c.state.leases.all fun lease => decide (c.state.BoundToWritten t lease)
  | _, _ => true

private theorem readiesWritten_of {c : Running sampleKey} {l : Step sampleKey}
    (h : readiesWritten c l = true) : ReadiesWritten c l := by
  rintro t o leaseId source set lease rfl happlies hl hmem
  simp only [readiesWritten, happlies, List.all_eq_true, decide_eq_true_eq] at h
  exact h lease (SandboxWorld.mem_of_lease? hl)

private def building : List (Step sampleKey) :=
  .spawn (.createBuildSandbox sampleInput) :: List.replicate 28 (.advance 0 .done)

theorem built_lease_hydrated : ∃ c, sampleSandboxes.play (.initial sampleWorld) building = some c ∧
    c.state.leases.any (fun lease => lease.state == .ready) = true ∧
      c.state.Hydrated sampleDirectory := by
  have hrun : (sampleSandboxes.play (.initial sampleWorld) building).any (fun c =>
      c.state.leases.any fun lease => lease.state == .ready) = true := by decide +kernel
  obtain ⟨c, hplay, hready⟩ := (Option.any_eq_true ..).mp hrun
  refine ⟨c, hplay, hready, ready_leases_hydrated sampleOptions sampleDirectory
    sampleWorld_initial (Machine.Along.mono (P := fun c l => readiesWritten c l = true)
      (fun _ _ => readiesWritten_of) (by decide +kernel)) hplay⟩

/-- The resource goes missing after its files were written. The reconciler binds the lease to
another one before the caller makes it ready. -/
private def rebound : List (Step sampleKey) :=
  .spawn (.createBuildSandbox sampleInput) :: List.replicate 25 (.advance 0 .done) ++
    [.act (.change (sampleProviders 'b' [sampleRef 'a' "local" "build:5:1"])), .spawn .reconcile] ++
      List.replicate 7 (.advance 1 .done) ++ List.replicate 3 (.advance 0 .done)

theorem rebound_lease_not_hydrated : ¬ ∀ (key : SandboxRef → String)
    (options : SandboxServiceOptions) (directory : Directory) (w : SandboxWorld key)
    (ls : List (Step key)) (c : Running key), w.Initial →
    (sandboxes options directory).play (.initial w) ls = some c →
    c.state.Hydrated directory := by
  intro h
  have hrun : (sampleSandboxes.play (.initial sampleWorld) rebound).any (fun c =>
      c.state.leases.any fun lease => lease.state == .ready &&
        lease.ref? == some (sampleRef 'b' "local" "build:5:1") &&
          c.state.written.all fun entry => entry.2.1 != sampleRef 'b' "local" "build:5:1") =
      true := by decide +kernel
  obtain ⟨c, hplay, hc⟩ := (Option.any_eq_true ..).mp hrun
  obtain ⟨lease, hl, hc⟩ := List.any_eq_true.mp hc
  simp only [Bool.and_eq_true, beq_iff_eq, List.all_eq_true, bne_iff_ne] at hc
  obtain ⟨⟨hready, hbound⟩, hunwritten⟩ := hc
  obtain ⟨ref, href, t, hwritten⟩ := h _ sampleOptions sampleDirectory sampleWorld rebound c
    sampleWorld_initial hplay lease hl (.inl hready)
  cases hbound.symm.trans href
  exact hunwritten _ hwritten rfl

end Runs

end AppBuilder.Sandbox
