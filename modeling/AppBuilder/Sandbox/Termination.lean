import AppBuilder.Sandbox.LeaseInvariant

/-! A lease is terminated when its provider has said that the bound resource is missing. -/
namespace AppBuilder.Sandbox
open Agent Async

namespace SandboxWorld

variable {key : SandboxRef → String} {w w' : SandboxWorld key}

/-- A provider has reported that the resource does not exist. -/
def ReportedMissing (w : SandboxWorld key) (ref : SandboxRef) : Prop :=
  ∃ t report, (t, report) ∈ w.reports ∧ report.ref = ref ∧ report.missing = true

theorem ReportedMissing.mono {ref : SandboxRef} (h : w.ReportedMissing ref)
    (hw : w.reports <:+ w'.reports) : w'.ReportedMissing ref := by
  obtain ⟨t, report, hr, hm⟩ := h
  exact ⟨t, report, hw.subset hr, hm⟩

/-- No terminated lease is bound to a resource that may still exist. -/
def TerminatedMissing (w w' : SandboxWorld key) : Prop :=
  ∀ lease ∈ w'.leases, lease.state = .terminated → ∀ ref, lease.ref? = some ref →
    w.ReportedMissing ref

theorem mem_of_newestReport {t : ThreadId} {report : ProviderReport}
    (h : w.newestReport t = some report) : (t, report) ∈ w.reports := by
  obtain ⟨found, hf, rfl⟩ := Option.map_eq_some_iff.mp h
  have ht : found.1 = t := by simpa using List.find?_some hf
  exact ht ▸ List.mem_of_find?_eq_some hf

/-- The last word that `t` has on the resource of `lease` is not a receipt, or one that says that
this resource is missing. -/
def ReceiptConfirms (w : SandboxWorld key) (t : ThreadId) (lease : SandboxLease) : Prop :=
  ∀ ref report, lease.ref? = some ref → w.newestReport t = some report → report.receipt = true →
    report.ref = ref ∧ report.missing = true

theorem reported_of_mayTerminate {t : ThreadId} {h : SandboxHistory} {lease : SandboxLease}
    {ref : SandboxRef} (hr : w.Recalls t h) (hstored : w.lease? lease._id = some lease)
    (hmay : MayTerminate h lease._id) (href : lease.ref? = some ref)
    (hreceipt : w.ReceiptConfirms t lease) : w.ReportedMissing ref := by
  generalize hid : lease._id = leaseId at hmay
  -- what was seen of a terminating lease is bound to the same resource still
  have hsame : ∀ seen : SandboxLease, Saw h seen → seen.state = .terminating →
      seen._id = lease._id → seen.ref? = some ref := by
    intro seen saw hstate hseen
    obtain ⟨later, hl, hev⟩ := hr.saw seen saw
    rw [hseen, hstored] at hl
    cases hl
    have hsettled : seen.state.Settled := by
      rw [hstate]
      exact ⟨by simp, by simp⟩
    exact (hev.ref? hsettled).symm.trans href
  cases hmay with
  | @unbound h seen saw state bound =>
    have hb := hsame seen saw state hid.symm
    rw [bound] at hb
    cases hb
  | @missing h seen inspected now inspection saw state bound status =>
    have hb := hsame seen ((saw.cons _).cons _) state hid.symm
    cases bound.symm.trans hb
    have htold := hr.told ⟨ref, inspection.status == .missing, false⟩ rfl
    exact ⟨t, _, mem_of_newestReport htold, rfl, by simp [status]⟩
  | @destroyed h seen inspected now receipt saw bound pending =>
    have htold := hr.told ⟨inspected, receipt.missing, true⟩ rfl
    obtain ⟨hsame, hmissing⟩ := hreceipt ref _ href htold rfl
    exact ⟨t, _, mem_of_newestReport htold, hsame, hmissing⟩

/-- A lease becomes terminated only by a transition to that state. -/
theorem terminated_of_update {op : SandboxOp} {u : LeaseUpdate} (hu : op.update? = some u)
    {lease : SandboxLease} (accepted : u.accepts lease = true) {updatedAt : Time}
    (hstate : SandboxLease.state { u.patch lease with updatedAt } = .terminated) :
    SandboxLease.ref? { u.patch lease with updatedAt } = lease.ref? ∧ (lease.state = .terminated ∨
      ∃ source set, op = .transition u.leaseId source .terminated set ∧
        lease.state ∈ source) := by
  cases op with
  | transition leaseId source target set =>
    cases hu
    have htarget : target = .terminated := hstate
    subst htarget
    exact ⟨rfl, .inr ⟨source, set, rfl, by simpa using accepted⟩⟩
  | bindExternalId leaseId ref =>
    cases hu
    simp only [Bool.and_eq_true, beq_iff_eq] at accepted
    have hstate : lease.state = .terminated := hstate
    rw [accepted.1.1] at hstate
    cases hstate
  | clearExternalId leaseId ref =>
    cases hu
    simp only [Bool.and_eq_true, beq_iff_eq] at accepted
    have hstate : lease.state = .terminated := hstate
    rw [accepted.1] at hstate
    cases hstate
  | claimProvisioning leaseId expectedUpdatedAt claimedAt =>
    cases hu
    exact ⟨rfl, .inl hstate⟩
  | heartbeatRunning leaseId ref heartbeatAt =>
    cases hu
    exact ⟨rfl, .inl hstate⟩
  | claimStaleRunning leaseId ref heartbeatCutoff =>
    cases hu
    cases hstate
  | _ => cases hu

end SandboxWorld

section Claim

variable (options : SandboxServiceOptions) (directory : Directory) {key : SandboxRef → String}

/-- A lease that the step leaves terminated was reported missing before the step. -/
def TerminatesReported (c : Running key) (l : Step key) : Prop :=
  ∀ c', (sandboxes options directory).step c l = some c' → c.state.TerminatedMissing c'.state

/-- A cleanup that goes by the receipt of its `destroy` gives its lease the terminated state only
when the receipt says that the bound resource is missing. -/
def TerminatesByReceipt (c : Running key) (l : Step key) : Prop :=
  ∀ t o leaseId source set lease, l = .advance t o →
    c.applies l = some (.transition leaseId source .terminated set) →
    c.state.lease? leaseId = some lease → lease.state ∈ source →
    c.state.ReceiptConfirms t lease

variable {options directory}

/-- The step lemma. -/
theorem terminatedMissing_step {c : Running key} {l : Step key} {w' : SandboxWorld key}
    (hh : c.state.TerminatedMissing c.state) (hok : TerminatesByReceipt c l)
    (hstep : WorldStep options directory key c l w') : c.state.TerminatedMissing w' := by
  cases hstep with
  | untouched leases clock written reports =>
    intro lease hl
    rw [leases] at hl
    exact hh lease hl
  | performs t o op h hl happlies hrecalls hconduct heq =>
    have heffect := SandboxWorld.exec_effect directory t op c.state
    rw [← heq] at heffect
    intro lease hlease hstate ref href
    cases heffect with
    | unchanged leases nextId =>
      rw [leases] at hlease
      exact hh lease hlease hstate ref href
    | created record _ _ admitted leases nextId =>
      rw [leases, List.mem_append, List.mem_singleton] at hlease
      rcases hlease with hlease | rfl
      · exact hh lease hlease hstate ref href
      · cases hstate
    | replaced u hu old leaseId accepted replaces =>
      rcases replaces.mem_leases.mp hlease with rfl | ⟨hlease, -⟩
      · obtain ⟨hsame, hbefore⟩ := SandboxWorld.terminated_of_update hu accepted hstate
        have href : old.ref? = some ref := hsame.symm.trans href
        rcases hbefore with hstate | ⟨source, set, rfl, hmem⟩
        · exact hh old (SandboxWorld.mem_of_lease? replaces.stored) hstate ref href
        · have hmay : MayTerminate h u.leaseId := hconduct.2.2 rfl
          have hstored := replaces.stored
          have hreceipt := hok t o _ source set old hl happlies (leaseId ▸ hstored) hmem
          exact SandboxWorld.reported_of_mayTerminate hrecalls hstored (leaseId ▸ hmay) href
            hreceipt
      · exact hh lease hlease hstate ref href

/-- In a run whose cleanups go by receipts that confirm, a resource that still exists is never
attached to a terminated lease only. -/
theorem terminated_leases_missing (options : SandboxServiceOptions) (directory : Directory)
    {w : SandboxWorld key} {ls : List (Step key)} (hw : w.Initial)
    (hok : (sandboxes options directory).Along TerminatesByReceipt (.initial w) ls) :
    (sandboxes options directory).Along (TerminatesReported options directory) (.initial w) ls := by
  refine Machine.along_of_invariant (J := fun c =>
    (leaseDiscipline options directory key).Holds c ∧ c.state.TerminatedMissing c.state)
    ?_ ?_ hok ⟨Discipline.holds_initial hw.wellFormed, ?_⟩
  · rintro c l ⟨hc, hh⟩ hok c' hstep
    exact terminatedMissing_step hh hok (worldStep_of_step hc hstep)
  · rintro c l c' ⟨hc, hh⟩ hok hstep
    obtain ⟨hc', m, hm⟩ := Discipline.holds_step hc trivial hstep
    refine ⟨hc', fun lease hl hstate ref href => ?_⟩
    have hreported := terminatedMissing_step hh hok (worldStep_of_step hc hstep) lease hl hstate
      ref href
    exact hreported.mono hm.reports
  · simp [SandboxWorld.TerminatedMissing, Config.initial, hw.leases]

end Claim

section Runs

private def byReceipt (c : Running sampleKey) (l : Step sampleKey) : Bool :=
  match l, c.applies l with
  | .advance t _, some (.transition _ _ .terminated _) =>
    c.state.leases.all fun lease => match lease.ref?, c.state.newestReport t with
      | some ref, some report => !report.receipt || (report.ref == ref && report.missing)
      | _, _ => true
  | _, _ => true

private theorem byReceipt_of {c : Running sampleKey} {l : Step sampleKey}
    (h : byReceipt c l = true) : TerminatesByReceipt c l := by
  rintro t o leaseId source set lease rfl happlies hl hmem ref report href hreport hreceipt
  simp only [byReceipt, happlies, List.all_eq_true] at h
  have hlease := h lease (SandboxWorld.mem_of_lease? hl)
  simpa [href, hreport, hreceipt] using hlease

/-- The build is terminated after its resource has gone. -/
private def terminating : List (Step sampleKey) :=
  .spawn (.createBuildSandbox sampleInput) :: List.replicate 28 (.advance 0 .done) ++
    [.act (.change (sampleProviders 'a' [sampleRef 'a' "local" "build:5:1"])),
      .spawn (.terminate 6 ⟨1, 2, 3, .value 5, .absent, .build⟩)] ++
        List.replicate 6 (.advance 1 .done)

theorem terminated_build_missing :
    (sampleSandboxes.play (.initial sampleWorld) terminating).any (fun c =>
      c.state.leases.any fun lease => lease.state == .terminated) = true ∧
    sampleSandboxes.Along (TerminatesReported sampleOptions sampleDirectory) (.initial sampleWorld)
      terminating :=
  ⟨by decide +kernel, terminated_leases_missing sampleOptions sampleDirectory sampleWorld_initial
    (Machine.Along.mono (P := fun c l => byReceipt c l = true) (fun _ _ => byReceipt_of)
      (by decide +kernel))⟩

/-- Hydration fails. The receipt of the cleanup's `destroy` is neither pending nor missing. -/
private def abandoned : List (Step sampleKey) :=
  .spawn (.createBuildSandbox sampleInput) :: List.replicate 24 (.advance 0 .done) ++
    .advance 0 (.refused .other) :: List.replicate 3 (.advance 0 .done)

theorem cleanup_terminates_unreported : ¬ ∀ (key : SandboxRef → String)
    (options : SandboxServiceOptions) (directory : Directory) (w : SandboxWorld key)
    (ls : List (Step key)), w.Initial →
    (sandboxes options directory).Along (TerminatesReported options directory) (.initial w) ls := by
  intro h
  have halong := h _ sampleOptions sampleDirectory sampleWorld (abandoned ++ [.advance 0 .done])
    sampleWorld_initial
  have hrun : (sampleSandboxes.play (.initial sampleWorld) abandoned).any (fun c =>
      (c.state.reports.all fun entry => !entry.2.missing) &&
        (sampleSandboxes.step c (.advance 0 .done)).any fun c' =>
          c'.state.leases.any fun lease => lease.state == .terminated && lease.ref?.isSome) =
      true := by decide +kernel
  obtain ⟨c, hplay, hc⟩ := (Option.any_eq_true ..).mp hrun
  obtain ⟨hunreported, hc⟩ := Bool.and_eq_true_iff.mp hc
  obtain ⟨c', hstep, hc'⟩ := (Option.any_eq_true ..).mp hc
  obtain ⟨lease, hl, hlease⟩ := List.any_eq_true.mp hc'
  obtain ⟨hstate, hbound⟩ := Bool.and_eq_true_iff.mp hlease
  obtain ⟨ref, href⟩ := Option.isSome_iff_exists.mp hbound
  have hreported := ((Machine.along_append hplay).mp halong).2.1 c' hstep lease hl
    (beq_iff_eq.mp hstate) ref href
  obtain ⟨t, report, hr, -, hmissing⟩ := hreported
  have hnot := List.all_eq_true.mp hunreported _ hr
  simp [hmissing] at hnot

end Runs

end AppBuilder.Sandbox
