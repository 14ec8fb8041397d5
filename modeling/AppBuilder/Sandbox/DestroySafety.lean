import AppBuilder.Sandbox.LeaseInvariant

/-! When a resource is destroyed, no lease that is provisioning, ready or running is bound to it. -/
namespace AppBuilder.Sandbox
open Agent Async

/-- The lease's owner may be using its resource. -/
def SandboxLease.Live (lease : SandboxLease) : Prop :=
  lease.state = .provisioning ∨ lease.state = .ready ∨ lease.state = .running

instance (lease : SandboxLease) : Decidable lease.Live := inferInstanceAs (Decidable (_ ∨ _))

/-- A program destroys the resource before it does anything but destroy. -/
inductive Destroys {α : Type} : SandboxPromise α → SandboxRef → Prop
  | now (ref next) : Destroys (.await (.destroy ref) next) ref
  | later {first next ref} (r : sandboxApi.Answer (.destroy first)) (h : Destroys (next r) ref) :
    Destroys (.await (.destroy first) next) ref

theorem Destroys.of_eq {α : Type} {p : SandboxPromise α} {ref : SandboxRef} {next}
    (h : p = .await (.destroy ref) next) : Destroys p ref := by
  subst h
  exact .now ref next

theorem Destroys.of_eq_later {α : Type} {p : SandboxPromise α} {first ref : SandboxRef} {next}
    {r : sandboxApi.Answer (.destroy first)} (h : p = .await (.destroy first) next)
    (hd : Destroys (next r) ref) : Destroys p ref := by
  subst h
  exact .later r hd

namespace SandboxWorld

variable {key : SandboxRef → String} {w w' : SandboxWorld key} {ref : SandboxRef}

/-- No live lease is bound to the resource. -/
def Spared (w : SandboxWorld key) (ref : SandboxRef) : Prop :=
  ∀ lease ∈ w.leases, lease.Live → lease.ref? ≠ some ref

theorem Spared.of_leases (h : w.Spared ref) (he : w'.leases = w.leases) : w'.Spared ref := by
  intro lease hl
  rw [he] at hl
  exact h lease hl

/-- A resource gets a live lease only when one is bound to it. -/
theorem live_of_update {op : SandboxOp} {u : LeaseUpdate} (hu : op.update? = some u)
    (hop : op.Allowed) {lease : SandboxLease} (hb : Binds key lease) {updatedAt : Time}
    (accepted : u.accepts lease = true)
    (hl : SandboxLease.Live { u.patch lease with updatedAt })
    (hr : SandboxLease.ref? { u.patch lease with updatedAt } = some ref) :
    lease.Live ∧ lease.ref? = some ref ∨ op = .bindExternalId u.leaseId ref ∧
      lease.state = .provisioning ∧ lease.provider = ref.provider ∧ lease.externalId = none := by
  cases op with
  | transition leaseId source target set =>
    cases hu
    have hr : lease.ref? = some ref := hr
    refine .inl ⟨?_, hr⟩
    have hnot := (hb ref hr).1
    have hallowed := hop lease.state (by simpa using accepted)
    have hl : target = .provisioning ∨ target = .ready ∨ target = .running := hl
    rw [SandboxLease.Live]
    cases hstate : lease.state <;> rw [hstate] at hallowed hnot <;>
      simp [SANDBOX_ALLOWED_TRANSITIONS] at hallowed hnot ⊢ <;>
      rcases hallowed with rfl | rfl | rfl <;> simp at hl
  | bindExternalId leaseId bound =>
    cases hu
    simp only [Bool.and_eq_true, beq_iff_eq] at accepted
    have hb : bound = ref := by
      obtain ⟨externalId, he, rfl⟩ := Option.map_eq_some_iff.mp hr
      cases bound
      simp_all
    subst hb
    exact .inr ⟨rfl, accepted.1.1, accepted.1.2, accepted.2⟩
  | clearExternalId leaseId bound =>
    cases hu
    cases hr
  | claimProvisioning leaseId expectedUpdatedAt claimedAt =>
    cases hu
    exact .inl ⟨hl, hr⟩
  | heartbeatRunning leaseId bound heartbeatAt =>
    cases hu
    exact .inl ⟨hl, hr⟩
  | claimStaleRunning leaseId bound heartbeatCutoff =>
    cases hu
    simp [SandboxLease.Live] at hl
  | _ => cases hu

/-- The operation binds a lease to the resource. -/
def BindsTo (w : SandboxWorld key) (op : SandboxOp) (ref : SandboxRef) : Prop :=
  ∃ leaseId lease, op = .bindExternalId leaseId ref ∧ w.lease? leaseId = some lease ∧
    lease.state = .provisioning ∧ lease.provider = ref.provider ∧ lease.externalId = none

variable (directory : Directory) (t : ThreadId)

theorem Spared.exec {op : SandboxOp} (hop : op.Allowed) (hw : w.WellFormed) (hs : w.Spared ref)
    (hbind : ¬ w.BindsTo op ref) : (w.exec directory t op).2.Spared ref := by
  cases exec_effect directory t op w with
  | unchanged leases nextId => exact hs.of_leases leases
  | created record _ _ admitted leases nextId =>
    intro lease hl hlive
    rw [leases, List.mem_append, List.mem_singleton] at hl
    rcases hl with hl | rfl
    · exact hs lease hl hlive
    · simp [SandboxLease.Live, reservedLease] at hlive
  | replaced u hu old leaseId accepted replaces =>
    intro lease hl hlive href
    have hmem := mem_of_lease? replaces.stored
    rcases replaces.mem_leases.mp hl with rfl | ⟨hl, -⟩
    · obtain ⟨hlive, href⟩ | ⟨rfl, hstate, hprovider, hnone⟩ :=
        live_of_update hu hop (hw.binds old hmem) accepted hlive href
      · exact hs old hmem hlive href
      · exact hbind ⟨u.leaseId, old, rfl, leaseId ▸ replaces.stored, hstate, hprovider, hnone⟩
    · exact hs lease hl hlive href

end SandboxWorld

section Claim

variable (options : SandboxServiceOptions) (directory : Directory) {key : SandboxRef → String}

/-- The thread whose code runs in a step. -/
def runningThread (c : Running key) : Step key → Option ThreadId
  | .advance t _ => some t
  | .spawn _ => some c.threads.length
  | .crash _ | .act _ => none

/-- When the step makes a call issue `destroy`, no live lease is bound to the resource. -/
def SparesLive (c : Running key) (l : Step key) : Prop :=
  ∀ c' t ref, (sandboxes options directory).step c l = some c' → runningThread c l = some t →
    c'.pending t = some (.destroy ref) → c'.state.Spared ref

/-- The update by which a failed provisioning gives its lease up. -/
def cleanupUpdate (leaseId : ObjectId) : SandboxOp :=
  .transition leaseId [.provisioning] .terminating { error := some provisionFailed }

/-- What a step must find: a cleanup does not come too late for its lease, the duplicates that a
repair has chosen are of no live lease, and nothing binds one of them afterwards. -/
structure DestroysInTime (c : Running key) (l : Step key) : Prop where
  cleanup : ∀ t o call leaseId next lease ref, l = .advance t o →
    c.threads[t]? = some ⟨call, .await (cleanupUpdate leaseId) next, false⟩ →
    c.state.lease? leaseId = some lease → lease.state = .ready ∨ lease.state = .running →
    Destroys (next (.ok none)) ref → lease.ref? ≠ some ref
  duplicates : ∀ t o call inspected next ref, l = .advance t o →
    c.threads[t]? = some ⟨call, .await (.inspect inspected) next, false⟩ →
    Destroys (next ((sandboxes options directory).perform t call (.inspect inspected) c.state o).1)
      ref → c.state.Spared ref
  bind : ∀ t o op ref, l = .advance t o → c.pending t = some op → c.state.BindsTo op ref →
    ∀ (u : ThreadId) call first
      (next : sandboxApi.Answer (.destroy first) → SandboxPromise SandboxResult) r, u ≠ t →
      c.threads[u]? = some ⟨call, .await (.destroy first) next, false⟩ →
      ¬ Destroys (next r) ref

/-- What the calls are still going to destroy is of no live lease. -/
def DestroysSpare (c : Running key) : Prop :=
  ∀ (u : ThreadId) call first
    (next : sandboxApi.Answer (.destroy first) → SandboxPromise SandboxResult) r ref,
    c.threads[u]? = some ⟨call, .await (.destroy first) next, false⟩ →
    Destroys (next r) ref → c.state.Spared ref

variable {options directory}

theorem possible_destroy (w : SandboxWorld key) (ref : SandboxRef)
    (r : sandboxApi.Answer (.destroy ref)) : Possible directory key (.destroy ref) r := by
  cases r with
  | error e => exact .inr ⟨e, rfl, rfl⟩
  | ok receipt =>
    exact .inl ⟨0, { w with providers := { w.providers with destroy := fun _ => .ok receipt } },
      rfl⟩

theorem MayDestroy.of_again {h : SandboxHistory} {ref destroyed : SandboxRef}
    {r : sandboxApi.Answer (.destroy destroyed)}
    (hm : MayDestroy key (⟨.destroy destroyed, r⟩ :: h) ref) : MayDestroy key h ref := by
  cases hm with
  | terminating read => cases read
  | again may => exact may

/-- What a call destroys next it has a reason for. -/
theorem Destroys.mayDestroy {α : Type} {p : SandboxPromise α} {ref : SandboxRef}
    {h : SandboxHistory} {Q : α → SandboxHistory → Prop} {X : Failure → SandboxHistory → Prop}
    (w : SandboxWorld key) (hd : Destroys p ref)
    (hp : (conduct options directory key).Tracks p h Q X) : MayDestroy key h ref := by
  induction hd generalizing h with
  | now ref next => exact hp.1
  | later r _ ih => exact MayDestroy.of_again (ih (hp.2 r (possible_destroy w _ r)))

variable (directory) in
/-- A cleanup that finds its lease no longer provisioning leaves it alone. -/
theorem cleanup_spares {w : SandboxWorld key} (t : ThreadId) {lease : SandboxLease}
    {ref : SandboxRef} {found : Option SandboxLease}
    (hw : (w.exec directory t (cleanupUpdate lease._id)).2.WellFormed)
    (hseen : (w.exec directory t (cleanupUpdate lease._id)).2.Seen lease)
    (hbinds : SandboxWorld.Binds key lease) (href : lease.ref? = some ref)
    (hr : (w.exec directory t (cleanupUpdate lease._id)).1 = .ok found)
    (hlate : found = none → ∀ stored, w.lease? lease._id = some stored →
      stored.state = .ready ∨ stored.state = .running → stored.ref? ≠ some ref) :
    (w.exec directory t (cleanupUpdate lease._id)).2.Spared ref := by
  intro other ho hlive hother
  -- only the lease that was to be cleaned up can have this resource
  obtain ⟨later, hl, hev⟩ := hseen
  have hkey : key ref = later.provisioningKey :=
    (hbinds ref href).2.trans (congrArg SandboxReservationRecord.provisioningKey hev.record).symm
  have he : later = other := hw.eq_of_key (SandboxWorld.mem_of_lease? hl) ho hkey hother
  subst he
  cases found with
  | none =>
    obtain ⟨hsame, hno⟩ := SandboxWorld.updateLease_none hr
    rw [show (w.exec directory t (cleanupUpdate lease._id)).2 = w from hsame] at hl
    have hready : later.state = .ready ∨ later.state = .running := by
      have hnot := hno later hl
      rcases hlive with hp | hready
      · simp [hp] at hnot
      · exact hready
    exact hlate rfl later hl hready hother
  | some found =>
    have hfound : found ∈ leasesRead ⟨cleanupUpdate lease._id,
        (w.exec directory t (cleanupUpdate lease._id)).1⟩ := by
      rw [hr]
      exact mem_found found
    have hmem := SandboxWorld.mem_of_read directory t hfound
    obtain ⟨hid, hstate⟩ := (@Possible.transition _ key) (.inl ⟨t, w, hr⟩)
    have hsame := hw.lease?_of_mem hmem
    rw [hid, hl] at hsame
    cases hsame
    simp [SandboxLease.Live, hstate] at hlive

/-- What a call destroys after a `destroy` it was going to destroy before. -/
private theorem destroyed_spares {c : Running key} {t : ThreadId} {call : SandboxCall}
    {first ref : SandboxRef} {next : sandboxApi.Answer (.destroy first) → SandboxPromise SandboxResult}
    {r : sandboxApi.Answer (.destroy first)} {o : Outcome Failure} (hspare : DestroysSpare c)
    (ht : c.threads[t]? = some ⟨call, .await (.destroy first) next, false⟩)
    (hd : Destroys (next r) ref) :
    ((sandboxes options directory).perform t call (.destroy first) c.state o).2.Spared ref := by
  have hs := hspare t call first next r ref ht hd
  rcases (sandboxes options directory).perform_state t call (.destroy first) c.state o with he | he
  · rw [he]
    exact hs
  · rw [he]
    exact hs.of_leases (SandboxWorld.exec_leases directory t rfl (by simp) c.state).1

/-- Whatever a call destroys after an operation, no live lease is bound to it. -/
theorem advanced_spares {c : Running key} {t : ThreadId} {call : SandboxCall} {op : SandboxOp}
    {next : sandboxApi.Answer op → SandboxPromise SandboxResult} {o : Outcome Failure}
    {ref : SandboxRef} (hc : (leaseDiscipline options directory key).Holds c)
    (hspare : DestroysSpare c) (hok : DestroysInTime options directory c (.advance t o))
    (ht : c.threads[t]? = some ⟨call, .await op next, false⟩)
    (ha : (@sandboxes key options directory).allows op o = true)
    (hd : Destroys (next ((sandboxes options directory).perform t call op c.state o).1) ref) :
    ((sandboxes options directory).perform t call op c.state o).2.Spared ref := by
  obtain ⟨h, hown, hconduct, htracks⟩ := hc.advancing ht
  obtain ⟨hw, hrecalls, -⟩ := (leaseDiscipline options directory key).advance c t o call op next h ht
    trivial ha hc.1 hown hconduct
  have hpossible := possible_of_answers options directory key
    ((sandboxes options directory).answers_perform ha t call c.state)
  have hmay := hd.mayDestroy c.state (htracks _ hpossible)
  generalize hr : ((sandboxes options directory).perform t call op c.state o).1 = r at *
  cases hmay with
  | @terminating _ _ lease _ read state bound =>
    cases o with
    | done =>
      intro other ho hlive hother
      subst hr
      have he := hw.eq_of_ref? (SandboxWorld.mem_of_read directory t read) ho bound hother
      subst he
      simp [SandboxLease.Live, state] at hlive
    | refused e => exact (SandboxWorld.not_read_error (hr ▸ read)).elim
    | unacknowledged e => exact (SandboxWorld.not_read_error (hr ▸ read)).elim
  | @failedProvisioning _ found lease _ saw bound =>
    cases o with
    | done =>
      have hsaw := saw.cons ⟨cleanupUpdate lease._id, .ok found⟩
      refine cleanup_spares directory t hw (hrecalls.saw lease hsaw) (hrecalls.binds lease hsaw) bound hr ?_
      rintro rfl stored hstored hready
      exact hok.cleanup t .done call lease._id next stored ref rfl ht hstored hready hd
    | refused e => cases hr
    | unacknowledged e => cases hr
  | @duplicate _ lease _ inspected _ saw hkey =>
    have hs := hok.duplicates t o call inspected next ref rfl ht (hr.symm ▸ hd)
    rcases (sandboxes options directory).perform_state t call (.inspect inspected) c.state o
      with he | he
    · rw [he]
      exact hs
    · rw [he]
      exact hs.of_leases (SandboxWorld.exec_leases directory t rfl (by simp) c.state).1
  | orphan =>
    cases o with
    | done =>
      intro other ho _ hother
      have hnone := List.find?_eq_none.mp (Except.ok.inj hr) other ho
      simp [hother] at hnone
    | refused e => cases hr
    | unacknowledged e => cases hr
  | again may => exact destroyed_spares hspare ht hd

/-- The step lemma. -/
theorem destroysSpare_step {c c' : Running key} {l : Step key}
    (hc : (leaseDiscipline options directory key).Holds c) (hspare : DestroysSpare c)
    (hok : DestroysInTime options directory c l)
    (hstep : (sandboxes options directory).step c l = some c') :
    DestroysSpare c' ∧ ∀ t ref, runningThread c l = some t →
      c'.pending t = some (.destroy ref) → c'.state.Spared ref := by
  cases l with
  | spawn call =>
    obtain ⟨-, rfl⟩ := Machine.step_spawn hstep
    -- a call does not begin with a `destroy`
    have hbody : ∀ ref, ¬ Destroys (call.body options) ref := by
      intro ref hd
      cases hd.mayDestroy c.state (body_conducted options directory key call)
    refine ⟨fun u other first next r ref hu hd => ?_, fun t ref ht hp => ?_⟩
    · rcases thread_of_append hu with hu | ⟨-, he⟩
      · exact hspare u other first next r ref hu hd
      · exact absurd (Destroys.of_eq (congrArg Thread.prog he).symm) (hbody first)
    · cases ht
      obtain ⟨th, next, hth, hprog⟩ := Config.of_pending hp
      rcases thread_of_append hth with hth | ⟨-, rfl⟩
      · simp at hth
      · exact absurd (Destroys.of_eq hprog) (hbody ref)
  | advance t o =>
    obtain ⟨call, op, next, ht, ha, rfl⟩ := Machine.step_advance hstep
    have hown : ∀ ref, Destroys (next ((sandboxes options directory).perform t call op c.state o).1)
        ref → ((sandboxes options directory).perform t call op c.state o).2.Spared ref :=
      fun ref hd => advanced_spares hc hspare hok ht ha hd
    refine ⟨fun u other first next' r ref hu hd => ?_, fun u ref hu hp => ?_⟩
    · rcases thread_of_set hu with ⟨rfl, he⟩ | ⟨hne, hu⟩
      · exact hown ref (Destroys.of_eq_later (congrArg Thread.prog he).symm hd)
      · have hs := hspare u other first next' r ref hu hd
        rcases (sandboxes options directory).perform_state t call op c.state o with he | he
        · exact hs.of_leases (congrArg _ he)
        · obtain ⟨h, -, hconduct, -⟩ := hc.advancing ht
          have hbind : ¬ c.state.BindsTo op ref := fun hb =>
            hok.bind t o op ref rfl (by simp [Config.pending, ht, Prog.pending]) hb u other first
              next' r hne hu hd
          exact (hs.exec directory t hconduct.allowed hc.1 hbind).of_leases (congrArg _ he)
    · cases hu
      obtain ⟨th, next', hth, hprog⟩ := Config.of_pending hp
      rcases thread_of_set hth with ⟨-, rfl⟩ | ⟨hne, -⟩
      · exact hown ref (Destroys.of_eq hprog)
      · exact absurd rfl hne
  | crash t =>
    obtain ⟨-, call, p, ht, rfl⟩ := Machine.step_crash hstep
    refine ⟨fun u other first next r ref hu hd => ?_, fun u ref hu hp => by cases hu⟩
    rcases thread_of_set hu with ⟨rfl, he⟩ | ⟨hne, hu⟩
    · cases congrArg Thread.crashed he
    · exact (hspare u other first next r ref hu hd).of_leases rfl
  | act a =>
    obtain ⟨w, ha, rfl⟩ := Machine.step_act hstep
    refine ⟨fun u other first next r ref hu hd => ?_, fun u ref hu hp => by cases hu⟩
    have hs := hspare u other first next r ref hu hd
    cases a <;> cases Option.some.inj ha <;> exact hs.of_leases rfl

/-- In a run whose steps all happen in time, no live sandbox is destroyed under its owner. -/
theorem destroy_spares_live_leases (options : SandboxServiceOptions) (directory : Directory)
    {w : SandboxWorld key} {ls : List (Step key)} (hw : w.Initial)
    (hok : (sandboxes options directory).Along (DestroysInTime options directory) (.initial w) ls) :
    (sandboxes options directory).Along (SparesLive options directory) (.initial w) ls := by
  have hinit : (leaseDiscipline options directory key).Holds (.initial w) ∧
      DestroysSpare (.initial w) :=
    ⟨Discipline.holds_initial hw.wellFormed, fun u call first next r ref hu => by
      simp [Config.initial] at hu⟩
  refine Machine.along_of_invariant (J := fun c =>
    (leaseDiscipline options directory key).Holds c ∧ DestroysSpare c) ?_ ?_ hok hinit
  · rintro c l ⟨hc, hspare⟩ hok c' t ref hstep ht hp
    exact (destroysSpare_step hc hspare hok hstep).2 t ref ht hp
  · rintro c l c' ⟨hc, hspare⟩ hok hstep
    exact ⟨(Discipline.holds_step hc trivial hstep).1, (destroysSpare_step hc hspare hok hstep).1⟩

end Claim

section Runs

private def destroying (op : Option SandboxOp) : Bool :=
  match op with
  | some (.destroy _) => true
  | _ => false

/-- A step at which no cleanup, no repair and no race is near. -/
private def quiet (c : Running sampleKey) (l : Step sampleKey) : Bool :=
  match l with
  | .advance t _ =>
    match c.pending t with
    | some (.transition _ _ _ set) => set.error.isNone
    | some (.inspect _) => (sampleSandboxes.step c l).all fun c' => !destroying (c'.pending t)
    | some (.bindExternalId ..) => c.threads.all fun th => !destroying th.prog.pending
    | _ => true
  | _ => true

private theorem destroying_of_destroys {p : SandboxPromise SandboxResult} {ref : SandboxRef}
    (hd : Destroys p ref) : destroying p.pending = true := by
  cases hd <;> rfl

private theorem quiet_inTime {c : Running sampleKey}
    {l : Step sampleKey} (hq : quiet c l = true) :
    DestroysInTime sampleOptions sampleDirectory c l where
  cleanup t o call leaseId next lease ref hl ht := by
    subst hl
    have hp : c.pending t = some (cleanupUpdate leaseId) := by
      simp [Config.pending, ht, Prog.pending]
    simp [quiet, hp, cleanupUpdate] at hq
  duplicates t o call inspected next ref hl ht hd := by
    subst hl
    have hp : c.pending t = some (.inspect inspected) := by
      simp [Config.pending, ht, Prog.pending]
    have hlt : t < c.threads.length := (List.getElem?_eq_some_iff.mp ht).1
    cases ho : sampleSandboxes.allows (.inspect inspected) o with
    | false => cases o <;> cases ho
    | true =>
      have hstep : sampleSandboxes.step c (.advance t o) = some
          ⟨(sampleSandboxes.perform t call (.inspect inspected) c.state o).2, c.threads.set t
            ⟨call, next (sampleSandboxes.perform t call (.inspect inspected) c.state o).1, false⟩⟩ := by
        simp [Machine.step, ht, ho]
      have hafter : ∀ (s : SandboxWorld sampleKey) p, Config.pending
          ⟨s, c.threads.set t ⟨call, p, false⟩⟩ t = p.pending := fun s p => by
        simp [Config.pending, hlt]
      simp only [quiet, hp, hstep, Option.all_some, hafter, destroying_of_destroys hd] at hq
      cases hq
  bind t o op ref hl hp hb u call first next r hu hth hd := by
    subst hl
    obtain ⟨leaseId, lease, rfl, -⟩ := hb
    have hmem := List.mem_of_getElem? hth
    simp only [quiet, hp, List.all_eq_true] at hq
    simpa [destroying, Prog.pending] using hq _ hmem

/-- A build that is made and terminated. -/
private def finishing : List (Step sampleKey) :=
  .spawn (.createBuildSandbox sampleInput) :: List.replicate 28 (.advance 0 .done) ++
    .spawn (.terminate 6 ⟨1, 2, 3, .value 5, .absent, .build⟩) ::
      List.replicate 7 (.advance 1 .done)

theorem finished_build_destroyed :
    sampleSandboxes.Along (SparesLive sampleOptions sampleDirectory) (.initial sampleWorld) finishing :=
  destroy_spares_live_leases sampleOptions sampleDirectory sampleWorld_initial
    (Machine.Along.mono (P := fun c l => quiet c l = true) (fun _ _ => quiet_inTime)
      (by decide +kernel))

/-- Two callers hydrate one resource. The first makes the lease ready; the artifact store fails the
second. -/
private def racing : List (Step sampleKey) :=
  .spawn (.createBuildSandbox sampleInput) :: List.replicate 21 (.advance 0 .done) ++
    [.spawn (.resumeProvisioning 6), .advance 1 .done] ++ List.replicate 7 (.advance 0 .done) ++
      [.advance 1 (.refused .other)]

theorem cleanup_destroys_ready_lease : ¬ ∀ (key : SandboxRef → String)
    (options : SandboxServiceOptions) (directory : Directory) (w : SandboxWorld key)
    (ls : List (Step key)), w.Initial →
    (sandboxes options directory).Along (SparesLive options directory) (.initial w) ls := by
  intro h
  have halong := h _ sampleOptions sampleDirectory sampleWorld (racing ++ [.advance 1 .done])
    sampleWorld_initial
  have hrun : (sampleSandboxes.play (.initial sampleWorld) racing).any (fun c =>
      (sampleSandboxes.step c (.advance 1 .done)).any fun c' =>
        c'.pending 1 == some (.destroy (sampleRef 'a' "local" "build:5:1")) &&
          c'.state.leases.any fun lease =>
            decide lease.Live && lease.ref? == some (sampleRef 'a' "local" "build:5:1")) = true := by
    decide +kernel
  obtain ⟨c, hplay, hc⟩ := (Option.any_eq_true ..).mp hrun
  obtain ⟨c', hstep, hc'⟩ := (Option.any_eq_true ..).mp hc
  obtain ⟨hpending, hlease⟩ := Bool.and_eq_true_iff.mp hc'
  obtain ⟨lease, hl, hlive⟩ := List.any_eq_true.mp hlease
  obtain ⟨hlive, href⟩ := Bool.and_eq_true_iff.mp hlive
  have hspares := ((Machine.along_append hplay).mp halong).2.1
  exact hspares c' 1 _ hstep rfl (beq_iff_eq.mp hpending) lease hl (of_decide_eq_true hlive)
    (beq_iff_eq.mp href)

end Runs

end AppBuilder.Sandbox
