import AppBuilder.Async.Discipline
import AppBuilder.Sandbox.Machine
import AppBuilder.Sandbox.ReconcilerWalk

/-! The invariant of the sandbox services: the leases are well formed, and what a call has seen of
the leases, of the clock and of the providers is still so. -/
namespace AppBuilder.Sandbox
open Agent Async

section Conformance

variable (options : SandboxServiceOptions) (directory : Directory) (key : SandboxRef → String)

theorem body_conducted (call : SandboxCall) :
    Conducted options directory key (call.body options) [] fun r h =>
      ∀ result, r = .command result → ∃ commandId, commandOf h = some (commandId, .passed false) := by
  cases call with
  | reserve request => exact (reserve_conducted request).andThen fun _ _ _ _ _ hr => by cases hr
  | createBuildSandbox input =>
    exact (createBuildSandbox_conducted input).andThen fun _ _ _ _ _ hr => by cases hr
  | resumeProvisioning leaseId =>
    exact (resumeProvisioning_conducted leaseId).andThen fun _ _ _ _ _ hr => by cases hr
  | runBuildCommand input =>
    exact (runBuildCommand_conducted input).andThen fun _ _ _ hpassed _ _ => hpassed
  | runScheduled commandId leaseId ref =>
    exact (runScheduled_conducted leaseId ref).andThen fun _ _ _ _ _ hr => by cases hr
  | terminate leaseId expectedOwnership =>
    exact (terminate_conducted leaseId expectedOwnership).andThen fun _ _ _ _ _ hr => by cases hr
  | reconcile => exact reconcile_conducted.andThen fun _ _ _ _ _ hr => by cases hr

theorem possible_of_answers {op : SandboxOp} {r : sandboxApi.Answer op}
    (h : (@sandboxes key options directory).Answers op r) : Possible directory key op r := by
  obtain ⟨t, e, w, o, ho, rfl⟩ := h
  cases o with
  | done => exact .inl ⟨t, w, rfl⟩
  | refused err => exact .inr ⟨err, rfl, ho⟩
  | unacknowledged err => exact .inr ⟨err, rfl, ho⟩

def conformance :
    Conformance (@sandboxes key options directory) (conduct options directory key) where
  start _ := []
  crash _ := []
  returns _ r h :=
    ∀ result, r = .command result → ∃ commandId, commandOf h = some (commandId, .passed false)
  throws _ _ _ := True
  body_tracks := body_conducted options directory key
  possible _ _ := possible_of_answers options directory key

end Conformance

/-- What was last written by a call, while it is known. -/
def lastWritten : SandboxHistory → Option (SandboxRef × List SandboxFile)
  | [] => none
  | ⟨.writeFiles ref files, .ok _⟩ :: _ => some (ref, files)
  | ⟨.writeFiles .., .error _⟩ :: _ => none
  | _ :: h => lastWritten h

/-- What a provider last said to a call. -/
def lastReport : SandboxHistory → Option ProviderReport
  | [] => none
  | ⟨.inspect ref, .ok inspection⟩ :: _ =>
    some ⟨ref, SandboxInspection.status inspection == .missing, false⟩
  | ⟨.inspect _, .error _⟩ :: _ => none
  | ⟨.destroy ref, .ok receipt⟩ :: _ => some ⟨ref, SandboxDestroyReceipt.missing receipt, true⟩
  | ⟨.destroy _, .error _⟩ :: _ => none
  | _ :: h => lastReport h

namespace SandboxWorld

variable {key : SandboxRef → String} {w w' : SandboxWorld key} {u : ThreadId}
  {h : SandboxHistory}

def newestWritten (w : SandboxWorld key) (t : ThreadId) : Option (SandboxRef × List SandboxFile) :=
  (w.written.find? fun entry => entry.1 == t).map (·.2)

def newestReport (w : SandboxWorld key) (t : ThreadId) : Option ProviderReport :=
  (w.reports.find? fun entry => entry.1 == t).map (·.2)

/-- What a call has seen is still so. -/
structure Recalls (t : ThreadId) (h : SandboxHistory) (w : SandboxWorld key) : Prop where
  saw : ∀ lease, Saw h lease → w.Seen lease
  binds : ∀ lease, Saw h lease → Binds key lease
  clock : ∀ now : Time, (⟨.now, .ok now⟩ : SandboxExchange) ∈ h → now ≤ w.clock
  wrote : ∀ entry, lastWritten h = some entry → w.newestWritten t = some entry
  told : ∀ report, lastReport h = some report → w.newestReport t = some report

/-- What every step of the machine keeps to; `m` is the thread that makes it. -/
structure Moves (m : Option ThreadId) (w w' : SandboxWorld key) : Prop where
  keeps : w.Keeps w'
  clock : w.clock ≤ w'.clock
  written : w.written <:+ w'.written
  reports : w.reports <:+ w'.reports
  newestWritten : ∀ u, m ≠ some u → w'.newestWritten u = w.newestWritten u
  newestReport : ∀ u, m ≠ some u → w'.newestReport u = w.newestReport u

theorem Moves.of_eq (m : Option ThreadId) (leases : w'.leases = w.leases)
    (clock : w'.clock = w.clock) (written : w'.written = w.written)
    (reports : w'.reports = w.reports) : Moves m w w' where
  keeps := .of_leases leases
  clock := clock.ge
  written := written ▸ List.suffix_refl _
  reports := reports ▸ List.suffix_refl _
  newestWritten u _ := by rw [SandboxWorld.newestWritten, written, SandboxWorld.newestWritten]
  newestReport u _ := by rw [SandboxWorld.newestReport, reports, SandboxWorld.newestReport]

theorem Recalls.stable {m : Option ThreadId} (hr : w.Recalls u h) (hm : Moves m w w')
    (hu : m ≠ some u) : w'.Recalls u h where
  saw lease hs := hm.keeps.seen (hr.saw lease hs)
  binds := hr.binds
  clock now hn := (hr.clock now hn).trans hm.clock
  wrote entry he := (hm.newestWritten u hu).trans (hr.wrote entry he)
  told report he := (hm.newestReport u hu).trans (hr.told report he)

section Exec

variable (directory : Directory) (t : ThreadId)

/-- An update of a lease touches nothing else. -/
theorem updateLease_eq (w : SandboxWorld key) (leaseId : ObjectId) (accepts : SandboxLease → Bool)
    (patch : SandboxLease → SandboxLease) : (w.updateLease leaseId accepts patch).2 =
      { w with leases := (w.updateLease leaseId accepts patch).2.leases } := by
  unfold updateLease
  split
  · rfl
  · dsimp only
    split_ifs <;> rfl

/-- What an operation adds to the files that were written. -/
def writtenBy : SandboxOp → List (ThreadId × SandboxRef × List SandboxFile)
  | .writeFiles ref files => [(t, ref, files)]
  | _ => []

/-- What an operation adds to the reports of the providers. -/
def reportedBy (w : SandboxWorld key) : SandboxOp → List (ThreadId × ProviderReport)
  | .inspect ref =>
    match w.providers.inspect ref with
    | .ok inspection => [(t, ⟨ref, inspection.status == .missing, false⟩)]
    | .error _ => []
  | .destroy ref =>
    match w.providers.destroy ref with
    | .ok receipt => [(t, ⟨ref, receipt.missing, true⟩)]
    | .error _ => []
  | _ => []

theorem exec_history (op : SandboxOp) (w : SandboxWorld key) :
    (w.exec directory t op).2.clock = w.clock ∧
      (w.exec directory t op).2.written = writtenBy t op ++ w.written ∧
      (w.exec directory t op).2.reports = reportedBy t w op ++ w.reports := by
  cases op with
  | transition | bindExternalId | clearExternalId | claimProvisioning | heartbeatRunning
  | claimStaleRunning =>
    simp only [exec]
    rw [updateLease_eq]
    exact ⟨rfl, rfl, rfl⟩
  | createLease record =>
    simp only [exec, createLease]
    split_ifs <;> exact ⟨rfl, rfl, rfl⟩
  | lock workspaceId =>
    simp only [exec]
    split_ifs <;> exact ⟨rfl, rfl, rfl⟩
  | assertHeld workspaceId =>
    simp only [exec]
    split_ifs <;> exact ⟨rfl, rfl, rfl⟩
  | inspect ref =>
    simp only [exec, reportedBy]
    cases w.providers.inspect ref <;> exact ⟨rfl, rfl, rfl⟩
  | destroy ref =>
    simp only [exec, reportedBy]
    cases w.providers.destroy ref <;> exact ⟨rfl, rfl, rfl⟩
  | beginHeartbeat commandId =>
    simp only [exec]
    split_ifs <;> exact ⟨rfl, rfl, rfl⟩
  | _ => exact ⟨rfl, rfl, rfl⟩

theorem writtenBy_thread {op : SandboxOp} {entry : ThreadId × SandboxRef × List SandboxFile}
    (he : entry ∈ writtenBy t op) : entry.1 = t := by
  cases op with
  | writeFiles ref files => rw [List.mem_singleton.mp he]
  | _ => cases he

theorem reportedBy_thread {w : SandboxWorld key} {op : SandboxOp}
    {entry : ThreadId × ProviderReport} (he : entry ∈ reportedBy t w op) : entry.1 = t := by
  cases op with
  | inspect ref =>
    simp only [reportedBy] at he
    split at he
    · rw [List.mem_singleton.mp he]
    · cases he
  | destroy ref =>
    simp only [reportedBy] at he
    split at he
    · rw [List.mem_singleton.mp he]
    · cases he
  | _ => cases he

private theorem find?_append_other {α : Type} {added old : List (ThreadId × α)} {u : ThreadId}
    (hadd : ∀ entry ∈ added, entry.1 = t) (hu : t ≠ u) :
    (added ++ old).find? (fun entry => entry.1 == u) = old.find? fun entry => entry.1 == u := by
  rw [List.find?_append, List.find?_eq_none.mpr, Option.none_or]
  intro entry he
  simpa [hadd entry he] using hu

theorem exec_moves {op : SandboxOp} (hop : op.Allowed) (w : SandboxWorld key) :
    Moves (some t) w (w.exec directory t op).2 := by
  obtain ⟨hclock, hwritten, hreports⟩ := exec_history directory t op w
  constructor
  · exact (exec_effect directory t op w).keeps hop
  · exact hclock.ge
  · rw [hwritten]
    exact List.suffix_append _ _
  · rw [hreports]
    exact List.suffix_append _ _
  · intro u hu
    rw [newestWritten, hwritten, newestWritten, find?_append_other t
      (fun _ he => writtenBy_thread t he) fun h => hu (congrArg some h)]
  · intro u hu
    rw [newestReport, hreports, newestReport, find?_append_other t
      (fun _ he => reportedBy_thread t he) fun h => hu (congrArg some h)]

/-- The invariant is kept by an operation that binds only resources of the lease's own key. -/
theorem exec_wellFormed {op : SandboxOp} (hop : op.Allowed)
    (hbind : ∀ leaseId ref, op = .bindExternalId leaseId ref →
      ∀ lease, w.lease? leaseId = some lease → key ref = lease.provisioningKey)
    (hw : w.WellFormed) : (w.exec directory t op).2.WellFormed := by
  cases exec_effect directory t op w with
  | unchanged leases nextId =>
    exact ⟨by rw [leases, nextId]; exact hw.fresh, by rw [leases]; exact hw.ids,
      by rw [leases]; exact hw.apart, by rw [leases]; exact hw.binds⟩
  | created record _ _ admitted leases nextId => exact hw.created admitted leases nextId
  | replaced u hu lease leaseId accepted replaces =>
    have hc := SandboxOp.update_change hu hop accepted w.clock
    have hbinds := hw.binds lease (mem_of_lease? replaces.stored)
    refine replaces.wellFormed hc.id hw fun ref href => ?_
    cases op with
    | transition id source target set =>
      cases hu
      have hne := hbinds ref href
      exact ⟨(hc.evolves.state).not_reserved hne.1, hne.2⟩
    | bindExternalId id bound =>
      cases hu
      simp only [Bool.and_eq_true, beq_iff_eq] at accepted
      have hid : lease._id = id := leaseId
      have hkey := hbind id bound rfl lease (hid ▸ replaces.stored)
      have hb : bound = ref := by
        obtain ⟨externalId, he, rfl⟩ := Option.map_eq_some_iff.mp href
        cases bound
        simp_all
      refine ⟨?_, hb ▸ hkey⟩
      simp [accepted.1.1]
    | clearExternalId id bound =>
      cases hu
      cases href
    | claimProvisioning id expectedUpdatedAt claimedAt =>
      cases hu
      exact hbinds ref href
    | heartbeatRunning id bound heartbeatAt =>
      cases hu
      exact hbinds ref href
    | claimStaleRunning id bound heartbeatCutoff =>
      cases hu
      exact ⟨by simp, (hbinds ref href).2⟩
    | _ => cases hu

/-- A lease that an update answers is stored. -/
theorem mem_updateLease {leaseId : ObjectId} {accepts : SandboxLease → Bool}
    {patch : SandboxLease → SandboxLease} {lease : SandboxLease}
    (h : lease ∈ leaseFound (w.updateLease leaseId accepts patch).1) :
    lease ∈ (w.updateLease leaseId accepts patch).2.leases := by
  have hu := w.updateLease_updated ⟨leaseId, accepts, patch⟩
  simp only at hu
  cases hr : w.updateLease leaseId accepts patch with
  | mk r w' =>
    rw [hr] at h hu
    cases hu with
    | refused => cases h
    | collided => cases h
    | replaced old stored accepted admitted =>
      simp only [leaseFound, Option.mem_toList, Option.some.injEq] at h
      subst h
      have hold : old._id = leaseId := lease?_id stored
      exact List.mem_map.mpr ⟨old, mem_of_lease? stored, by simp [Store.docId, hold]⟩

theorem leasesRead_error (op : SandboxOp) (e : Failure) : leasesRead ⟨op, .error e⟩ = [] := by
  cases op <;> rfl

theorem not_read_error {op : SandboxOp} {e : Failure} {lease : SandboxLease} :
    lease ∉ leasesRead ⟨op, .error e⟩ := by
  rw [leasesRead_error]
  exact List.not_mem_nil

theorem mem_of_read {op : SandboxOp} {lease : SandboxLease}
    (h : lease ∈ leasesRead ⟨op, (w.exec directory t op).1⟩) :
    lease ∈ (w.exec directory t op).2.leases := by
  cases op with
  | findLease leaseId => exact mem_of_lease? (Option.mem_toList.mp h)
  | findByProvisioningKey k => exact List.mem_of_find?_eq_some (Option.mem_toList.mp h)
  | findByProviderRef ref => exact List.mem_of_find?_eq_some (Option.mem_toList.mp h)
  | scanLeases => exact (List.mem_filter.mp (List.mem_of_mem_take h)).1
  | createLease record =>
    simp only [exec, createLease] at h ⊢
    split_ifs at h ⊢
    · cases h
    · rw [List.mem_singleton.mp h]
      simp
    · cases h
  | transition | bindExternalId | clearExternalId | claimProvisioning | heartbeatRunning
  | claimStaleRunning => exact mem_updateLease h
  | _ => cases h

end Exec

end SandboxWorld

end AppBuilder.Sandbox
