import AppBuilder.Sandbox.QuotaMeters
import AppBuilder.Sandbox.ReservationLock

/-! The occupying leases stay within the quotas: a reservation is counted and inserted under the
lock of its workspace. -/
namespace AppBuilder.Sandbox
open Agent Async Quota

variable {options : SandboxServiceOptions} {directory : Directory} {key : SandboxRef → String}

/-- The reservation has been counted; it is inserted once the last checks pass. -/
inductive Inserting {α : Type} : SandboxPromise α → SandboxReservationRecord → Prop
  | insert {record} (next : sandboxApi.Answer (.createLease record) → SandboxPromise α) :
    Inserting (.await (.createLease record) next) record
  | found {provisioningKey record}
    {next : sandboxApi.Answer (.findByProvisioningKey provisioningKey) → SandboxPromise α}
    (h : Inserting (next (.ok none)) record) :
    Inserting (.await (.findByProvisioningKey provisioningKey) next) record
  | held {workspaceId record}
    {next : sandboxApi.Answer (.assertHeld workspaceId) → SandboxPromise α}
    (h : Inserting (next (.ok ())) record) : Inserting (.await (.assertHeld workspaceId) next) record

/-- The project of the reservation has been counted, its workspace is counted next. -/
inductive Counting (key : SandboxRef → String) {α : Type} :
    SandboxPromise α → SandboxReservationRecord → Prop
  | usage {workspaceId record} (w : SandboxWorld key)
    {next : sandboxApi.Answer (.workspaceUsage workspaceId) → SandboxPromise α}
    (h : Inserting (next (.ok (w.workspaceUsage workspaceId))) record) :
    Counting key (.await (.workspaceUsage workspaceId) next) record

/-- What a call has done that is about to insert a reservation. -/
inductive Counted (directory : Directory) : SandboxHistory → SandboxReservationRecord → Prop
  | usage {h record project workspace projectCount usage}
    (lock : lockOf h = some record.workspaceId)
    (hproject : directory.project record.projectId = some project)
    (hworkspace : directory.workspace record.workspaceId = some workspace)
    (owner : project.workspaceId = some record.workspaceId)
    (fits : exceedsQuota record project workspace.executionLimits projectCount usage = false) :
    Counted directory (⟨.workspaceUsage record.workspaceId, .ok usage⟩ ::
      ⟨.countProject record.projectId record.purpose, .ok projectCount⟩ :: h) record
  | held {h workspaceId record} (counted : Counted directory h record) :
    Counted directory (⟨.assertHeld workspaceId, .ok ()⟩ :: h) record
  | found {h provisioningKey record} (counted : Counted directory h record) :
    Counted directory (⟨.findByProvisioningKey provisioningKey, .ok none⟩ :: h) record

/-- A lease with the provisioning key of the reservation has been seen. -/
def SawKey (h : SandboxHistory) (record : SandboxReservationRecord) : Prop :=
  ∃ lease, Saw h lease ∧ lease.provisioningKey = record.provisioningKey

section Histories

variable {h : SandboxHistory} {record : SandboxReservationRecord}

theorem MayCreate.counted_or_saw (hm : MayCreate directory h record) :
    Counted directory h record ∨ SawKey h record := by
  cases hm with
  | again saw hkey => exact .inr ⟨_, saw, hkey⟩
  | counted lock hproject hworkspace owner fits =>
    exact .inl (.found (.held (.usage lock hproject hworkspace owner fits)))

theorem Counted.lock (hc : Counted directory h record) : lockOf h = some record.workspaceId := by
  induction hc with
  | usage lock => exact lock
  | held _ ih => exact ih
  | found _ ih => exact ih

/-- The project of a counted reservation belongs to the workspace that is locked. -/
theorem Counted.owner (hc : Counted directory h record) : ∃ project,
    directory.project record.projectId = some project ∧
      project.workspaceId = some record.workspaceId := by
  induction hc with
  | usage _ hproject _ owner => exact ⟨_, hproject, owner⟩
  | held _ ih => exact ih
  | found _ ih => exact ih

theorem SawKey.of_unread {x : SandboxExchange} (hread : leasesRead x = [])
    (hs : SawKey (x :: h) record) : SawKey h record := by
  obtain ⟨lease, ⟨y, hy, hl⟩, hkey⟩ := hs
  rcases List.mem_cons.mp hy with rfl | hy
  · rw [hread] at hl
    cases hl
  · exact ⟨lease, ⟨y, hy, hl⟩, hkey⟩

variable {α : Type} {p : SandboxPromise α} {Q : α → SandboxHistory → Prop}
  {X : Failure → SandboxHistory → Prop}

/-- What a call is about to insert it has counted, or it knows that it is there. -/
theorem Inserting.counted (w : SandboxWorld key) (hi : Inserting p record)
    (hp : (conduct options directory key).Tracks p h Q X) :
    Counted directory h record ∨ SawKey h record := by
  induction hi generalizing h with
  | insert next => exact MayCreate.counted_or_saw hp.1
  | @found provisioningKey record next _ ih =>
    have hnone : Possible directory key (.findByProvisioningKey provisioningKey) (.ok none) :=
      .inl ⟨0, { w with leases := [] }, rfl⟩
    rcases ih (hp.2 _ hnone) with hc | hs
    · cases hc with
      | found hc => exact .inl hc
    · exact .inr (hs.of_unread rfl)
  | @held workspaceId record next _ ih =>
    have hheld : Possible directory key (.assertHeld workspaceId) (.ok ()) :=
      .inl ⟨0, { w with locks := [(workspaceId, 0)] }, by simp [SandboxWorld.exec]⟩
    rcases ih (hp.2 _ hheld) with hc | hs
    · cases hc with
      | held hc => exact .inl hc
    · exact .inr (hs.of_unread rfl)

/-- A call that is about to count its workspace has counted its project. -/
theorem Counting.counted (hi : Counting key p record)
    (hp : (conduct options directory key).Tracks p h Q X) :
    (∃ workspaceId usage, Counted directory (⟨.workspaceUsage workspaceId, .ok usage⟩ :: h) record) ∨
      SawKey h record := by
  obtain ⟨w, hi⟩ := hi
  rename_i workspaceId next
  have husage : Possible directory key (.workspaceUsage workspaceId)
      (.ok (w.workspaceUsage workspaceId)) := .inl ⟨0, w, rfl⟩
  rcases hi.counted w (hp.2 _ husage) with hc | hs
  · exact .inl ⟨workspaceId, _, hc⟩
  · exact .inr (hs.of_unread rfl)

end Histories

section Limits

variable {s gone : Multiset SandboxReservationRecord} {r r' : SandboxReservationRecord}

theorem WithinProjects.of_add (h : WithinProjects directory (s + gone)) :
    WithinProjects directory s := fun m hm => (h m hm).of_add fun _ _ => hm.nonneg

theorem WithinLimits.of_add (h : WithinLimits directory (s + gone))
    (hgone : ∀ record ∈ gone, record.valid = true) : WithinLimits directory s :=
  ⟨h.1.of_add, fun m hm => (h.2 m hm).of_add fun record hr => hm.nonneg (hgone record hr)⟩

theorem WithinProjects.cons_cons (h : WithinProjects directory (r ::ₘ s))
    (h' : WithinProjects directory (r' ::ₘ s)) (hne : r.projectId ≠ r'.projectId) :
    WithinProjects directory (r ::ₘ r' ::ₘ s) :=
  fun m hm => (h m hm).cons_cons (h' m hm) (hm.apart hne)

theorem WithinLimits.cons_cons (h : WithinLimits directory (r ::ₘ s))
    (h' : WithinLimits directory (r' ::ₘ s)) (hproject : r.projectId ≠ r'.projectId)
    (hworkspace : r.workspaceId ≠ r'.workspaceId) : WithinLimits directory (r ::ₘ r' ::ₘ s) :=
  ⟨h.1.cons_cons h'.1 hproject, fun m hm =>
    (h.2 m hm).cons_cons (h'.2 m hm) (hm.apart hworkspace)⟩

end Limits

namespace SandboxWorld

variable {w w' : SandboxWorld key} {record : SandboxReservationRecord}

/-- A lease with the provisioning key of the reservation is stored. -/
def Stores (w : SandboxWorld key) (record : SandboxReservationRecord) : Prop :=
  ∃ lease ∈ w.leases, lease.provisioningKey = record.provisioningKey

theorem Seen.stores {lease : SandboxLease} (hs : w.Seen lease)
    (hkey : lease.provisioningKey = record.provisioningKey) : w.Stores record := by
  obtain ⟨later, hl, hev⟩ := hs
  exact ⟨later, mem_of_lease? hl,
    (congrArg SandboxReservationRecord.provisioningKey hev.record).trans hkey⟩

theorem Recalls.stores {t : ThreadId} {h : SandboxHistory} (hr : w.Recalls t h)
    (hs : SawKey h record) : w.Stores record := by
  obtain ⟨lease, hsaw, hkey⟩ := hs
  exact (hr.saw lease hsaw).stores hkey

theorem Stores.keeps (hs : w.Stores record) (hw : w.WellFormed) (h : w.Keeps w') :
    w'.Stores record := by
  obtain ⟨lease, hl, hkey⟩ := hs
  exact (h.seen (hw.seen hl)).stores hkey

def AllValid (w : SandboxWorld key) : Prop := ∀ lease ∈ w.leases, lease.valid = true

/-- What an operation does to the demand. -/
inductive DemandStep (op : SandboxOp) (w w' : SandboxWorld key) : Prop
  | shrinks (gone : Multiset SandboxReservationRecord) (hgone : ∀ r ∈ gone, r.valid = true)
      (heq : w.demand = w'.demand + gone)
  | inserts (record : SandboxReservationRecord) (hop : op = .createLease record)
      (fresh : ¬ w.Stores record) (heq : w'.demand = record ::ₘ w.demand)
  | reenters (leaseId : ObjectId) (source : List SandboxLeaseState) (set : LeasePatch)
      (lease : SandboxLease) (hop : op = .transition leaseId source .terminating set)
      (stored : w.lease? leaseId = some lease) (hmem : lease.state ∈ source)
      (hnot : ¬ lease.Occupying)
      (heq : w'.demand = lease.toSandboxReservationRecord ::ₘ w.demand)

theorem DemandStep.of_leases {op : SandboxOp} (h : w'.leases = w.leases) :
    w.DemandStep op w' :=
  .shrinks 0 (by simp) (by rw [demand, demand, h, Multiset.add_zero])

/-- A lease that occupies again becomes terminating. -/
theorem reenters_of_update {op : SandboxOp} {u : LeaseUpdate} (hu : op.update? = some u)
    (hop : op.Allowed) {lease : SandboxLease} (accepted : u.accepts lease = true)
    {updatedAt : Time} (hnot : ¬ lease.Occupying)
    (hocc : SandboxLease.Occupying { u.patch lease with updatedAt }) :
    ∃ source set, op = .transition u.leaseId source .terminating set ∧ lease.state ∈ source := by
  have hstate : lease.state ≠ .provisioning ∧ lease.state ≠ .running := by
    constructor <;> intro he <;> simp [SandboxLease.Occupying, OCCUPYING_SANDBOX_STATES, he] at hnot
  cases op with
  | transition leaseId source target set =>
    cases hu
    have hmem : lease.state ∈ source := by simpa using accepted
    have hallowed := hop lease.state hmem
    have hocc : target ∈ OCCUPYING_SANDBOX_STATES := hocc
    have htarget : target = .terminating := by
      cases hs : lease.state <;> cases target <;>
        simp_all [SANDBOX_ALLOWED_TRANSITIONS, OCCUPYING_SANDBOX_STATES, SandboxLease.Occupying]
    subst htarget
    exact ⟨source, set, rfl, hmem⟩
  | bindExternalId leaseId ref =>
    cases hu
    simp only [Bool.and_eq_true, beq_iff_eq] at accepted
    exact absurd accepted.1.1 hstate.1
  | clearExternalId leaseId ref =>
    cases hu
    simp only [Bool.and_eq_true, beq_iff_eq] at accepted
    exact absurd accepted.1 hstate.1
  | claimProvisioning leaseId expectedUpdatedAt claimedAt =>
    cases hu
    simp only [Bool.and_eq_true, beq_iff_eq] at accepted
    exact absurd accepted.1 hstate.1
  | heartbeatRunning leaseId ref heartbeatAt =>
    cases hu
    simp only [Bool.and_eq_true, beq_iff_eq] at accepted
    exact absurd accepted.1 hstate.2
  | claimStaleRunning leaseId ref heartbeatCutoff =>
    cases hu
    simp only [Bool.and_eq_true, beq_iff_eq] at accepted
    exact absurd accepted.1.1 hstate.2
  | _ => cases hu

variable (directory) in
theorem exec_demand (t : ThreadId) {op : SandboxOp} (hop : op.Allowed) (hw : w.WellFormed)
    (hvalid : w.AllValid) : w.DemandStep op (w.exec directory t op).2 := by
  cases exec_effect directory t op w with
  | unchanged leases nextId => exact .of_leases leases
  | created record hop valid admitted leases nextId =>
    refine .inserts record hop ?_ ?_
    · rintro ⟨lease, hl, hkey⟩
      have hne : lease._id ≠ (w.reservedLease record)._id := Nat.ne_of_lt (hw.fresh lease hl)
      have hapart := admits_iff.mp admitted lease hl hne
      have hsame : lease.provisioningKey = (w.reservedLease record).provisioningKey := hkey
      simp [collide, hsame] at hapart
    · have hone : demandOf [w.reservedLease record] = {record} := by
        rw [demandOf_singleton]
        exact if_pos (by simp [SandboxLease.Occupying, reservedLease, OCCUPYING_SANDBOX_STATES])
      rw [demand, leases, demandOf_append, hone, Multiset.add_comm]
      rfl
  | replaced u hu lease leaseId accepted replaces =>
    obtain ⟨rest, hbefore, hafter⟩ := replaces.demand hw.ids
    have hc := SandboxOp.update_change hu hop accepted w.clock
    rw [demandOf_singleton] at hbefore hafter
    rw [hc.record] at hafter
    by_cases hold : lease.Occupying
    · rw [if_pos hold] at hbefore
      by_cases hnew : SandboxLease.Occupying { u.patch lease with updatedAt := w.clock }
      · rw [if_pos hnew] at hafter
        exact .shrinks 0 (by simp) (by rw [hbefore, hafter, Multiset.add_zero])
      · rw [if_neg hnew] at hafter
        refine .shrinks {lease.toSandboxReservationRecord} ?_ ?_
        · intro r hr
          rw [Multiset.mem_singleton.mp hr]
          exact hvalid lease (mem_of_lease? replaces.stored)
        · rw [hbefore, hafter, zero_add, Multiset.add_comm]
    · rw [if_neg hold] at hbefore
      by_cases hnew : SandboxLease.Occupying { u.patch lease with updatedAt := w.clock }
      · rw [if_pos hnew] at hafter
        obtain ⟨source, set, hop, hmem⟩ := reenters_of_update hu hop accepted hold hnew
        refine .reenters u.leaseId source set lease hop (leaseId ▸ replaces.stored) hmem hold ?_
        rw [hafter, hbefore, zero_add, Multiset.singleton_add]
      · rw [if_neg hnew] at hafter
        exact .shrinks 0 (by simp) (by rw [hbefore, hafter, Multiset.add_zero])

variable (directory) in
theorem exec_allValid (t : ThreadId) {op : SandboxOp} (hop : op.Allowed) (hvalid : w.AllValid) :
    (w.exec directory t op).2.AllValid := by
  intro lease hl
  cases exec_effect directory t op w with
  | unchanged leases nextId => exact hvalid lease (leases ▸ hl)
  | created record hop valid admitted leases nextId =>
    rw [leases, List.mem_append, List.mem_singleton] at hl
    rcases hl with hl | rfl
    · exact hvalid lease hl
    · exact valid
  | replaced u hu old leaseId accepted replaces =>
    rcases replaces.mem_leases.mp hl with rfl | ⟨hl, -⟩
    · have hc := SandboxOp.update_change hu hop accepted w.clock
      rw [hc.record]
      exact hvalid old (mem_of_lease? replaces.stored)
    · exact hvalid lease hl

end SandboxWorld

section Claim

variable (directory) in
/-- `s` leaves room for each reservation that a call has counted and not stored. -/
structure RoomBeside (c : Running key) (s : Multiset SandboxReservationRecord) : Prop where
  limits : WithinLimits directory s
  inserting : ∀ (u : ThreadId) call p record, c.threads[u]? = some ⟨call, p, false⟩ →
    Inserting p record → ¬ c.state.Stores record → WithinLimits directory (record ::ₘ s)
  counting : ∀ (u : ThreadId) call p record, c.threads[u]? = some ⟨call, p, false⟩ →
    Counting key p record → ¬ c.state.Stores record → WithinProjects directory (record ::ₘ s)

variable (directory) in
/-- A failed or lost lease that becomes terminating finds room for itself. -/
def RoomForReentry (c : Running key) (l : Step key) : Prop :=
  ∀ leaseId source set lease, c.applies l = some (.transition leaseId source .terminating set) →
    c.state.lease? leaseId = some lease → lease.state ∈ source → ¬ lease.Occupying →
    RoomBeside directory c (lease.toSandboxReservationRecord ::ₘ c.state.demand)

/-- The lock and the project of a reservation that a call has counted. -/
def Scoped (directory : Directory) (c : Running key) (u : ThreadId)
    (record : SandboxReservationRecord) : Prop :=
  (record.workspaceId, u) ∈ c.state.locks ∧
    ∃ project, directory.project record.projectId = some project ∧
      project.workspaceId = some record.workspaceId

variable {c : Running key} {u t : ThreadId} {record r : SandboxReservationRecord}

/-- Two calls never count for one workspace at a time. -/
theorem Scoped.apart (hlocks : c.state.LocksExclusive) (hu : Scoped directory c u r)
    (ht : Scoped directory c t record) (hne : u ≠ t) :
    r.projectId ≠ record.projectId ∧ r.workspaceId ≠ record.workspaceId := by
  have hworkspace : r.workspaceId ≠ record.workspaceId := by
    intro he
    exact hne (hlocks _ u t hu.1 (he ▸ ht.1))
  refine ⟨fun he => hworkspace ?_, hworkspace⟩
  obtain ⟨project, hp, howner⟩ := hu.2
  obtain ⟨project', hp', howner'⟩ := ht.2
  rw [he, hp'] at hp
  cases hp
  exact Option.some.inj (howner.symm.trans howner')

abbrev LocksHeld (options : SandboxServiceOptions) (directory : Directory) (c : Running key) : Prop :=
  (lockExtension options directory key).discipline.Holds c

theorem LocksHeld.thread (hc : LocksHeld options directory c) {call : SandboxCall}
    {p : SandboxPromise SandboxResult} (hu : c.threads[u]? = some ⟨call, p, false⟩) :
    ∃ h, c.state.Recalls u h ∧
      (∀ workspaceId, lockOf h = some workspaceId → (workspaceId, u) ∈ c.state.locks) ∧
      Conducted options directory key p h fun result _ =>
        ∃ h', (conformance options directory key).returns call result h' := by
  obtain ⟨h, ⟨hrecalls, hlocks⟩, hlive, -⟩ := hc.2 u _ hu
  refine ⟨h, hrecalls, hlocks, (hlive rfl).mono (fun result h' hr => ⟨h', hr⟩) fun _ _ _ => trivial⟩

theorem Inserting.scoped {call : SandboxCall} {p : SandboxPromise SandboxResult}
    (hi : Inserting p record) (hc : LocksHeld options directory c)
    (hu : c.threads[u]? = some ⟨call, p, false⟩) (hnot : ¬ c.state.Stores record) :
    Scoped directory c u record := by
  obtain ⟨h, hrecalls, hlocks, hp⟩ := hc.thread hu
  rcases hi.counted c.state hp with hcounted | hsaw
  · exact ⟨hlocks _ hcounted.lock, hcounted.owner⟩
  · exact absurd (hrecalls.stores hsaw) hnot

theorem Counting.scoped {call : SandboxCall} {p : SandboxPromise SandboxResult}
    (hi : Counting key p record) (hc : LocksHeld options directory c)
    (hu : c.threads[u]? = some ⟨call, p, false⟩) (hnot : ¬ c.state.Stores record) :
    Scoped directory c u record := by
  obtain ⟨h, hrecalls, hlocks, hp⟩ := hc.thread hu
  rcases hi.counted hp with ⟨workspaceId, usage, hcounted⟩ | hsaw
  · exact ⟨hlocks _ hcounted.lock, hcounted.owner⟩
  · exact absurd (hrecalls.stores hsaw) hnot

/-- A step that changes the demand leaves room for what the other calls have counted. -/
theorem roomBeside_others {w' : SandboxWorld key} {call : SandboxCall} {op : SandboxOp}
    {next : sandboxApi.Answer op → SandboxPromise SandboxResult}
    (hc : LocksHeld options directory c) (hroom : RoomBeside directory c c.state.demand)
    (hreenter : ∀ leaseId source set lease, op = .transition leaseId source .terminating set →
      c.state.lease? leaseId = some lease → lease.state ∈ source → ¬ lease.Occupying →
      RoomBeside directory c (lease.toSandboxReservationRecord ::ₘ c.state.demand))
    (ht : c.threads[t]? = some ⟨call, .await op next, false⟩)
    (hstep : c.state.DemandStep op w') :
    WithinLimits directory w'.demand ∧ ∀ (u : ThreadId) call p r, u ≠ t →
      c.threads[u]? = some ⟨call, p, false⟩ → ¬ c.state.Stores r →
      (Inserting p r → WithinLimits directory (r ::ₘ w'.demand)) ∧
      (Counting key p r → WithinProjects directory (r ::ₘ w'.demand)) := by
  cases hstep with
  | shrinks gone hgone heq =>
    rw [heq] at hroom
    refine ⟨hroom.limits.of_add hgone, fun u call p r _ hu hnot => ⟨fun hi => ?_, fun hi => ?_⟩⟩
    · have hr := hroom.inserting u call p r hu hi hnot
      rw [← Multiset.cons_add] at hr
      exact hr.of_add hgone
    · have hr := hroom.counting u call p r hu hi hnot
      rw [← Multiset.cons_add] at hr
      exact hr.of_add
  | inserts record hop fresh heq =>
    subst hop
    have hinsert : Inserting (.await (.createLease record) next) record := .insert next
    have hlimits := hroom.inserting t call _ record ht hinsert fresh
    have hscope := hinsert.scoped hc ht fresh
    rw [heq]
    refine ⟨hlimits, fun u call p r hne hu hnot => ⟨fun hi => ?_, fun hi => ?_⟩⟩
    · obtain ⟨hproject, hworkspace⟩ := (hi.scoped hc hu hnot).apart hc.1.2 hscope hne
      exact (hroom.inserting u call p r hu hi hnot).cons_cons hlimits hproject hworkspace
    · obtain ⟨hproject, -⟩ := (hi.scoped hc hu hnot).apart hc.1.2 hscope hne
      exact (hroom.counting u call p r hu hi hnot).cons_cons hlimits.1 hproject
  | reenters leaseId source set lease hop stored hmem hnot heq =>
    have hr := hreenter leaseId source set lease hop stored hmem hnot
    rw [heq]
    exact ⟨hr.limits, fun u call p r _ hu hnot =>
      ⟨fun hi => hr.inserting u call p r hu hi hnot, fun hi => hr.counting u call p r hu hi hnot⟩⟩

/-- What the call that moves has counted has room. -/
theorem roomBeside_own {call : SandboxCall} {op : SandboxOp} {o : Outcome Failure}
    {next : sandboxApi.Answer op → SandboxPromise SandboxResult} {w' : SandboxWorld key}
    {a : sandboxApi.Answer op} (hc : LocksHeld options directory c)
    (hroom : RoomBeside directory c c.state.demand)
    (ht : c.threads[t]? = some ⟨call, .await op next, false⟩)
    (ha : (@sandboxes key options directory).allows op o = true)
    (hperform : (sandboxes options directory).perform t call op c.state o = (a, w'))
    (hnot : ¬ w'.Stores record) :
    (Inserting (next a) record → WithinLimits directory (record ::ₘ w'.demand)) ∧
      (Counting key (next a) record → WithinProjects directory (record ::ₘ w'.demand)) := by
  obtain ⟨h, hown, hpermits, htracks⟩ := hc.advancing ht
  obtain ⟨-, hown', -⟩ := (lockExtension options directory key).discipline.advance c t o call op
    next h ht ⟨trivial, trivial⟩ ha hc.1 hown hpermits
  have hp := htracks _ (possible_of_answers options directory key
    ((sandboxes options directory).answers_perform ha t call c.state))
  rw [hperform] at hown' hp
  have hunseen : ¬ SawKey (⟨op, a⟩ :: h) record := fun hsaw => hnot (hown'.1.stores hsaw)
  constructor
  · intro hi
    have hcounted := (hi.counted c.state hp).resolve_right hunseen
    -- an answer that goes on with the reservation is one that was given
    cases hcounted with
    | @usage _ _ project workspace projectCount usage lock hproject hworkspace owner fits =>
      cases o with
      | done =>
        cases hperform
        have hcounting : Counting key (.await (.workspaceUsage record.workspaceId) next) record :=
          .usage c.state hi
        exact ⟨hroom.counting t call _ record ht hcounting hnot,
          hroom.limits.2.reserve hworkspace fits⟩
      | refused e => cases hperform
      | unacknowledged e => cases hperform
    | @held _ workspaceId _ counted =>
      have hsame : w' = c.state := by
        cases o with
        | done =>
          simp only [Machine.perform, sandboxes, SandboxWorld.exec] at hperform
          split_ifs at hperform <;> exact (congrArg Prod.snd hperform).symm
        | refused e => cases hperform
        | unacknowledged e => cases hperform
      subst hsame
      exact hroom.inserting t call _ record ht (.held hi) hnot
    | @found _ provisioningKey _ counted =>
      have hsame : w' = c.state := by
        cases o with
        | done => exact (congrArg Prod.snd hperform).symm
        | refused e => cases hperform
        | unacknowledged e => cases hperform
      subst hsame
      exact hroom.inserting t call _ record ht (.found hi) hnot
  · intro hi
    obtain ⟨workspaceId, usage, hcounted⟩ | hsaw := hi.counted hp
    · cases hcounted with
      | @usage _ _ project workspace projectCount usage lock hproject hworkspace owner fits =>
        cases o with
        | done =>
          cases hperform
          exact hroom.limits.1.reserve hproject (exceedsQuota_eq_false.mp fits).1
        | refused e => cases hperform
        | unacknowledged e => cases hperform
    · exact absurd hsaw hunseen

/-- The invariant: the leases are valid, and the quotas have room for what has been counted. -/
structure QuotasKept (directory : Directory) (c : Running key) : Prop where
  valid : c.state.AllValid
  room : RoomBeside directory c c.state.demand

/-- No call begins with a reservation that is counted. -/
theorem body_not_reserving (directory : Directory) (w : SandboxWorld key)
    (call : SandboxCall) :
    ¬ Inserting (call.body options) record ∧ ¬ Counting key (call.body options) record := by
  have hbody := body_conducted options directory key call
  constructor
  · intro hi
    rcases hi.counted w hbody with hcounted | ⟨lease, hsaw, -⟩
    · cases hcounted
    · exact SandboxWorld.not_saw_nil hsaw
  · intro hi
    rcases hi.counted hbody with ⟨workspaceId, usage, hcounted⟩ | ⟨lease, hsaw, -⟩
    · cases hcounted
    · exact SandboxWorld.not_saw_nil hsaw

/-- The step lemma. -/
theorem quotasKept_step {c' : Running key} {l : Step key} (hc : LocksHeld options directory c)
    (hq : QuotasKept directory c) (hok : RoomForReentry directory c l)
    (hstep : (sandboxes options directory).step c l = some c') : QuotasKept directory c' := by
  obtain ⟨hvalid, hroom⟩ := hq
  cases l with
  | spawn call =>
    obtain ⟨-, rfl⟩ := Machine.step_spawn hstep
    refine ⟨hvalid, hroom.limits, fun u other p record hu hi hnot => ?_,
      fun u other p record hu hi hnot => ?_⟩
    · rcases thread_of_append hu with hu | ⟨-, he⟩
      · exact hroom.inserting u other p record hu hi hnot
      · cases he
        exact absurd hi (body_not_reserving directory c.state call).1
    · rcases thread_of_append hu with hu | ⟨-, he⟩
      · exact hroom.counting u other p record hu hi hnot
      · cases he
        exact absurd hi (body_not_reserving directory c.state call).2
  | advance t o =>
    obtain ⟨call, op, next, ht, ha, rfl⟩ := Machine.step_advance hstep
    obtain ⟨h, ⟨-, -⟩, hpermits, -⟩ := hc.advancing ht
    have hallowed : op.Allowed := Conduct.allowed hpermits
    generalize hperform : (sandboxes options directory).perform t call op c.state o = performed
    obtain ⟨a, w'⟩ := performed
    have happlies : w' = c.state ∨
        c.applies (.advance t o : Step key) = some op ∧ w' = (c.state.exec directory t op).2 := by
      have hp : c.pending t = some op := by simp [Config.pending, ht, Prog.pending]
      cases o with
      | done => exact .inr ⟨hp, (congrArg Prod.snd hperform).symm⟩
      | refused e => exact .inl (congrArg Prod.snd hperform).symm
      | unacknowledged e => exact .inr ⟨hp, (congrArg Prod.snd hperform).symm⟩
    have hothers : w'.AllValid ∧ c.state.Keeps w' ∧ WithinLimits directory w'.demand ∧
        ∀ (u : ThreadId) call p r, u ≠ t → c.threads[u]? = some ⟨call, p, false⟩ →
          ¬ c.state.Stores r → (Inserting p r → WithinLimits directory (r ::ₘ w'.demand)) ∧
            (Counting key p r → WithinProjects directory (r ::ₘ w'.demand)) := by
      rcases happlies with rfl | ⟨happlies, rfl⟩
      · exact ⟨hvalid, .of_leases rfl, hroom.limits, fun u call p r _ hu hnot =>
          ⟨fun hi => hroom.inserting u call p r hu hi hnot,
            fun hi => hroom.counting u call p r hu hi hnot⟩⟩
      · refine ⟨SandboxWorld.exec_allValid directory t hallowed hvalid,
          (SandboxWorld.exec_moves directory t hallowed c.state).keeps,
          roomBeside_others hc hroom (fun leaseId source set lease hop => ?_) ht
            (SandboxWorld.exec_demand directory t hallowed hc.1.1 hvalid)⟩
        exact hok leaseId source set lease (hop ▸ happlies)
    obtain ⟨hvalid', hkeeps, hlimits, hothers⟩ := hothers
    refine ⟨hvalid', hlimits, fun u other p record hu hi hnot => ?_,
      fun u other p record hu hi hnot => ?_⟩
    · rcases thread_of_set hu with ⟨rfl, he⟩ | ⟨hne, hu⟩
      · cases he
        exact (roomBeside_own hc hroom ht ha hperform hnot).1 hi
      · exact (hothers u other p record hne hu fun hs => hnot (hs.keeps hc.1.1 hkeeps)).1 hi
    · rcases thread_of_set hu with ⟨rfl, he⟩ | ⟨hne, hu⟩
      · cases he
        exact (roomBeside_own hc hroom ht ha hperform hnot).2 hi
      · exact (hothers u other p record hne hu fun hs => hnot (hs.keeps hc.1.1 hkeeps)).2 hi
  | crash t =>
    obtain ⟨-, call, p, ht, rfl⟩ := Machine.step_crash hstep
    refine ⟨hvalid, hroom.limits, fun u other p record hu hi hnot => ?_,
      fun u other p record hu hi hnot => ?_⟩
    · rcases thread_of_set hu with ⟨rfl, he⟩ | ⟨-, hu⟩
      · cases congrArg Thread.crashed he
      · exact hroom.inserting u other p record hu hi hnot
    · rcases thread_of_set hu with ⟨rfl, he⟩ | ⟨-, hu⟩
      · cases congrArg Thread.crashed he
      · exact hroom.counting u other p record hu hi hnot
  | act a =>
    obtain ⟨w, ha, rfl⟩ := Machine.step_act hstep
    cases a <;> cases Option.some.inj ha <;>
      exact ⟨hvalid, hroom.limits, hroom.inserting, hroom.counting⟩

/-- The quotas, as the leases in an occupying state keep them. `maxCpu` is any number, so it
bounds the leases of a workspace that has some. -/
structure WithinQuota (directory : Directory) (w : SandboxWorld key) : Prop where
  branch : ∀ a ∈ w.occupying, ∀ b ∈ w.occupying, a.purpose = .build → b.purpose = .build →
    a.branchId = b.branchId → a = b
  project : ∀ projectId project purpose, directory.project projectId = some project →
    w.countProject projectId purpose ≤ projectLimit project purpose
  workspace : ∀ workspaceId workspace purpose, directory.workspace workspaceId = some workspace →
    (w.workspaceUsage workspaceId).count purpose ≤ workspaceLimit workspace.executionLimits purpose
  cpu : ∀ lease ∈ w.occupying, ∀ workspace, directory.workspace lease.workspaceId = some workspace →
    (w.workspaceUsage lease.workspaceId).cpu ≤ workspace.executionLimits.maxCpu
  memory : ∀ workspaceId workspace, directory.workspace workspaceId = some workspace →
    (w.workspaceUsage workspaceId).memoryMiB ≤ workspace.executionLimits.maxMemoryMiB
  disk : ∀ workspaceId workspace, directory.workspace workspaceId = some workspace →
    (w.workspaceUsage workspaceId).diskMiB ≤ workspace.executionLimits.maxDiskMiB

theorem eq_of_branch {w : SandboxWorld key} (hw : w.WellFormed) {a b : SandboxLease}
    (ha : a ∈ w.occupying) (hb : b ∈ w.occupying) (hbuild : a.purpose = .build)
    (hbuild' : b.purpose = .build) (hbranch : a.branchId = b.branchId) : a = b := by
  obtain ⟨hma, hoa⟩ := List.mem_filter.mp ha
  obtain ⟨hmb, hob⟩ := List.mem_filter.mp hb
  refine hw.eq_of_collide hma hmb ?_
  simp [SandboxWorld.collide, hbuild, hbuild', hbranch, of_decide_eq_true hoa,
    of_decide_eq_true hob]

/-- The meters say what the quotas say. -/
theorem WithinLimits.withinQuota {w : SandboxWorld key} (h : WithinLimits directory w.demand)
    (hw : w.WellFormed) (hvalid : w.AllValid) : WithinQuota directory w where
  branch a ha b hb := eq_of_branch hw ha hb
  project projectId project purpose stored := by
    have hm := (h.1 _ (.count purpose stored)).countP_le
    rwa [SandboxWorld.countP_project] at hm
  workspace workspaceId workspace purpose stored := by
    have hm := (h.2 _ (.count purpose stored)).countP_le
    rwa [SandboxWorld.countP_workspace] at hm
  cpu lease hl workspace stored := by
    have hnonneg : ∀ record ∈ w.demand, 0 ≤ (resourceMeter lease.workspaceId (·.cpu)
        workspace.executionLimits.maxCpu).weight record := by
      intro record hr
      obtain ⟨other, ho, rfl⟩ := List.mem_map.mp (Multiset.mem_coe.mp hr)
      exact (WorkspaceMeter.cpu stored).nonneg (hvalid other (List.mem_filter.mp ho).1)
    have hmem : lease.toSandboxReservationRecord ∈ w.demand :=
      Multiset.mem_coe.mpr (List.mem_map_of_mem hl)
    have hpos : 0 < (resourceMeter lease.workspaceId (·.cpu)
        workspace.executionLimits.maxCpu).weight lease.toSandboxReservationRecord := by
      have hweight : (resourceMeter lease.workspaceId (·.cpu)
          workspace.executionLimits.maxCpu).weight lease.toSandboxReservationRecord =
            lease.resourceProfile.cpu := if_pos rfl
      rw [hweight]
      exact valid_cpu (hvalid lease (List.mem_filter.mp hl).1)
    have hm := (h.2 _ (.cpu stored)).used_le (Meter.used_pos hnonneg hmem hpos)
    rw [SandboxWorld.used_cpu] at hm
    exact hm
  memory workspaceId workspace stored := by
    have hm := (h.2 _ (.memory stored)).used_le_of_nonneg (Nat.cast_nonneg _)
    rw [SandboxWorld.used_memory] at hm
    exact Nat.cast_le.mp hm
  disk workspaceId workspace stored := by
    have hm := (h.2 _ (.disk stored)).used_le_of_nonneg (Nat.cast_nonneg _)
    rw [SandboxWorld.used_disk] at hm
    exact Nat.cast_le.mp hm

theorem withinLimits_zero : WithinLimits directory 0 :=
  ⟨fun m _ => m.within_zero, fun m _ => m.within_zero⟩

/-- In a run in which each failed or lost lease that becomes terminating finds room, the occupying
leases stay within the quotas. -/
theorem occupying_leases_within_quota (options : SandboxServiceOptions) (directory : Directory)
    {w : SandboxWorld key} {ls : List (Step key)} {c : Running key} (hw : w.Initial)
    (hok : (sandboxes options directory).Along (RoomForReentry directory) (.initial w) ls)
    (h : (sandboxes options directory).play (.initial w) ls = some c) :
    WithinQuota directory c.state := by
  have hlocks : LocksHeld options directory (.initial w) :=
    Discipline.holds_initial ⟨hw.wellFormed, fun _ t u ht => by simp [hw.locks] at ht⟩
  have hdemand : w.demand = 0 := by simp [SandboxWorld.demand, demandOf, hw.leases]
  have hquotas : QuotasKept directory (.initial w) :=
    ⟨by simp [SandboxWorld.AllValid, Config.initial, hw.leases],
      hdemand ▸ withinLimits_zero, fun u call p record hu => by simp [Config.initial] at hu,
      fun u call p record hu => by simp [Config.initial] at hu⟩
  obtain ⟨hlocks, hquotas⟩ := Machine.play_invariant (J := fun c =>
    LocksHeld options directory c ∧ QuotasKept directory c)
    (fun c l c' hc hok hstep => ⟨(Discipline.holds_step hc.1 ⟨trivial, trivial⟩ hstep).1,
      quotasKept_step hc.1 hc.2 hok hstep⟩) hok h ⟨hlocks, hquotas⟩
  exact hquotas.room.limits.withinQuota hlocks.1.1 hquotas.valid

end Claim

section Runs

private def reserving : Option SandboxOp → Bool
  | some (.createLease _) | some (.findByProvisioningKey _) | some (.assertHeld _)
  | some (.workspaceUsage _) => true
  | _ => false

/-- A lease enters again when nothing else occupies, and no reservation is under way. -/
private def reentersAlone (c : Running sampleKey) (l : Step sampleKey) : Bool :=
  match c.applies l with
  | some (.transition leaseId _ .terminating _) => (c.state.lease? leaseId).all fun lease =>
    decide lease.Occupying || c.state.occupying.isEmpty &&
      c.threads.all (fun th => !reserving th.prog.pending) &&
        !exceedsQuota lease.toSandboxReservationRecord ⟨some 1, 4, 1, 1⟩
          ⟨1, 1, 4, 4096, 8192, 65536⟩ 0 ⟨0, 0, 0, 0, 0⟩
  | _ => true

private theorem reserving_of_inserting {p : SandboxPromise SandboxResult}
    {record : SandboxReservationRecord} (hi : Inserting p record) : reserving p.pending = true := by
  cases hi <;> rfl

private theorem reserving_of_counting {p : SandboxPromise SandboxResult}
    {record : SandboxReservationRecord} (hi : Counting key p record) :
    reserving p.pending = true := by
  cases hi
  rfl

private theorem reentersAlone_room {c : Running sampleKey} {l : Step sampleKey}
    (h : reentersAlone c l = true) : RoomForReentry sampleDirectory c l := by
  intro leaseId source set lease happlies hl hmem hnot
  simp only [reentersAlone, happlies, hl, Option.all_some, hnot, decide_false, Bool.false_or,
    Bool.and_eq_true, List.isEmpty_iff, List.all_eq_true, Bool.not_eq_true'] at h
  obtain ⟨⟨hempty, hidle⟩, hfits⟩ := h
  have hdemand : c.state.demand = 0 := by
    have hnone : c.state.leases.filter (fun lease => lease.Occupying) = [] := hempty
    simp [SandboxWorld.demand, demandOf, hnone]
  have hcount : c.state.countProject lease.projectId lease.purpose = 0 := by
    simp [SandboxWorld.countProject, hempty]
  have husage : c.state.workspaceUsage lease.workspaceId = ⟨0, 0, 0, 0, 0⟩ := by
    simp [SandboxWorld.workspaceUsage, hempty]
  have hzero : WithinLimits sampleDirectory c.state.demand := hdemand ▸ withinLimits_zero
  refine ⟨⟨hzero.1.reserve rfl ?_, hzero.2.reserve rfl (husage ▸ hfits)⟩,
    fun u call p record hu hi => ?_, fun u call p record hu hi => ?_⟩
  · rw [hcount]
    exact (exceedsQuota_eq_false.mp hfits).1
  · have hno := hidle _ (List.mem_of_getElem? hu)
    rw [reserving_of_inserting hi] at hno
    cases hno
  · have hno := hidle _ (List.mem_of_getElem? hu)
    rw [reserving_of_counting hi] at hno
    cases hno

private def notCreated : Failure := .sandbox ⟨.provisionFailed, "", false, some .notCreated⟩

/-- The provider does not create the resource of the first build. -/
private def failing : List (Step sampleKey) :=
  .spawn (.createBuildSandbox sampleInput) :: List.replicate 18 (.advance 0 .done) ++
    [.advance 0 (.refused notCreated), .advance 0 .done]

private def terminatingFailed : SandboxCall := .terminate 6 ⟨1, 2, 3, .value 5, .absent, .build⟩

theorem failed_lease_reenters_within_quota : ∃ c,
    sampleSandboxes.play (.initial sampleWorld)
      (failing ++ .spawn terminatingFailed :: List.replicate 2 (.advance 1 .done)) = some c ∧
    c.state.countProject 2 .build = 1 ∧ WithinQuota sampleDirectory c.state := by
  have hrun : (sampleSandboxes.play (.initial sampleWorld)
      (failing ++ .spawn terminatingFailed :: List.replicate 2 (.advance 1 .done))).any (fun c =>
        c.state.countProject 2 .build == 1) = true := by decide +kernel
  obtain ⟨c, hplay, hcount⟩ := (Option.any_eq_true ..).mp hrun
  refine ⟨c, hplay, beq_iff_eq.mp hcount, occupying_leases_within_quota sampleOptions
    sampleDirectory sampleWorld_initial (Machine.Along.mono
      (P := fun c l => reentersAlone c l = true) (fun _ _ => reentersAlone_room)
      (by decide +kernel)) hplay⟩

/-- After the first build has failed another one is reserved; then the first is terminated. -/
private def overbooked : List (Step sampleKey) :=
  failing ++ .spawn (.createBuildSandbox { sampleInput with branchId := 8, runId := 9 }) ::
    List.replicate 16 (.advance 1 .done) ++
      .spawn terminatingFailed :: List.replicate 2 (.advance 2 .done)

theorem terminated_failure_exceeds_quota : ¬ ∀ (key : SandboxRef → String)
    (options : SandboxServiceOptions) (directory : Directory) (w : SandboxWorld key)
    (ls : List (Step key)) (c : Running key), w.Initial →
    (sandboxes options directory).play (.initial w) ls = some c → WithinQuota directory c.state := by
  intro h
  have hrun : (sampleSandboxes.play (.initial sampleWorld) overbooked).any (fun c =>
      c.state.countProject 2 .build == 2) = true := by decide +kernel
  obtain ⟨c, hplay, hcount⟩ := (Option.any_eq_true ..).mp hrun
  have hquota := h _ sampleOptions sampleDirectory sampleWorld overbooked c sampleWorld_initial hplay
  have hone := hquota.project 2 ⟨some 1, 4, 1, 1⟩ .build rfl
  rw [beq_iff_eq.mp hcount] at hone
  exact absurd hone (by decide)

end Runs

end AppBuilder.Sandbox
