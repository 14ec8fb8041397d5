import AppBuilder.Sandbox.Lifecycle

/-! Every step of the sandbox services keeps the leases well formed, and keeps what each call has
seen true. -/
namespace AppBuilder.Sandbox
open Agent Async

variable {options : SandboxServiceOptions} {directory : Directory} {key : SandboxRef → String}

namespace SandboxWorld

variable {w w' : SandboxWorld key} {t : ThreadId} {h : SandboxHistory} {op : SandboxOp}

theorem lastWritten_error {e : Failure} {entry : SandboxRef × List SandboxFile}
    (he : lastWritten (⟨op, .error e⟩ :: h) = some entry) :
    writtenBy t op = [] ∧ lastWritten h = some entry := by
  cases op <;> first | exact ⟨rfl, he⟩ | cases he

theorem lastReport_error {e : Failure} {report : ProviderReport}
    (he : lastReport (⟨op, .error e⟩ :: h) = some report) :
    reportedBy t w op = [] ∧ lastReport h = some report := by
  cases op <;> first | exact ⟨rfl, he⟩ | cases he

theorem not_saw_nil {lease : SandboxLease} (hs : Saw [] lease) : False := by
  obtain ⟨x, hx, -⟩ := hs
  cases hx

theorem Recalls.nil (t : ThreadId) (w : SandboxWorld key) : w.Recalls t [] where
  saw lease hs := (not_saw_nil hs).elim
  binds lease hs := (not_saw_nil hs).elim
  clock now hn := by cases hn
  wrote entry he := by cases he
  told report he := by cases he

theorem Saw.of_error {e : Failure} {lease : SandboxLease} (hs : Saw (⟨op, .error e⟩ :: h) lease) :
    Saw h lease := by
  obtain ⟨x, hx, hl⟩ := hs
  rcases List.mem_cons.mp hx with rfl | hx
  · rw [leasesRead_error] at hl
    cases hl
  · exact ⟨x, hx, hl⟩

/-- An operation that fails without an effect adds nothing to what a call has seen. -/
theorem Recalls.refused (hr : w.Recalls t h) (e : Failure) : w.Recalls t (⟨op, .error e⟩ :: h) where
  saw lease hs := hr.saw lease (Saw.of_error hs)
  binds lease hs := hr.binds lease (Saw.of_error hs)
  clock now hn := by
    rcases List.mem_cons.mp hn with hn | hn
    · cases hn
    · exact hr.clock now hn
  wrote entry he := hr.wrote entry (lastWritten_error (t := t) he).2
  told report he := hr.told report (lastReport_error (w := w) (t := t) he).2

variable (directory)

/-- The effect happens, and the answer is lost. -/
theorem Recalls.unacknowledged (hr : w.Recalls t h)
    (hm : Moves (some t) w (w.exec directory t op).2) (e : Failure) :
    (w.exec directory t op).2.Recalls t (⟨op, .error e⟩ :: h) where
  saw lease hs := hm.keeps.seen ((hr.refused e).saw lease hs)
  binds := (hr.refused e).binds
  clock now hn := ((hr.refused e).clock now hn).trans hm.clock
  wrote entry he := by
    obtain ⟨hnone, he⟩ := lastWritten_error (t := t) he
    rw [newestWritten, (exec_history directory t op w).2.1, hnone]
    exact hr.wrote entry he
  told report he := by
    obtain ⟨hnone, he⟩ := lastReport_error (w := w) (t := t) he
    rw [newestReport, (exec_history directory t op w).2.2, hnone]
    exact hr.told report he

theorem lastWritten_done {r : sandboxApi.Answer op} {entry : SandboxRef × List SandboxFile}
    (he : lastWritten (⟨op, r⟩ :: h) = some entry) :
    writtenBy t op = [(t, entry)] ∨ writtenBy t op = [] ∧ lastWritten h = some entry := by
  cases op with
  | writeFiles ref files =>
    cases r with
    | ok v =>
      cases he
      exact .inl rfl
    | error e => cases he
  | _ => exact .inr ⟨rfl, he⟩

theorem lastReport_done {report : ProviderReport}
    (he : lastReport (⟨op, (w.exec directory t op).1⟩ :: h) = some report) :
    reportedBy t w op = [(t, report)] ∨ reportedBy t w op = [] ∧ lastReport h = some report := by
  cases op with
  | inspect ref =>
    simp only [exec, reportedBy] at he ⊢
    cases hi : w.providers.inspect ref with
    | ok inspection =>
      rw [hi] at he
      cases he
      exact .inl rfl
    | error e =>
      rw [hi] at he
      cases he
  | destroy ref =>
    simp only [exec, reportedBy] at he ⊢
    cases hd : w.providers.destroy ref with
    | ok receipt =>
      rw [hd] at he
      cases he
      exact .inl rfl
    | error e =>
      rw [hd] at he
      cases he
  | _ => exact .inr ⟨rfl, he⟩

/-- What an operation answers is so, once it has happened. -/
theorem Recalls.done (hr : w.Recalls t h) (hm : Moves (some t) w (w.exec directory t op).2)
    (hw : (w.exec directory t op).2.WellFormed) :
    (w.exec directory t op).2.Recalls t (⟨op, (w.exec directory t op).1⟩ :: h) where
  saw lease hs := by
    obtain ⟨x, hx, hl⟩ := hs
    rcases List.mem_cons.mp hx with rfl | hx
    · exact hw.seen (mem_of_read directory t hl)
    · exact hm.keeps.seen (hr.saw lease ⟨x, hx, hl⟩)
  binds lease hs := by
    obtain ⟨x, hx, hl⟩ := hs
    rcases List.mem_cons.mp hx with rfl | hx
    · exact hw.binds lease (mem_of_read directory t hl)
    · exact hr.binds lease ⟨x, hx, hl⟩
  clock now hn := by
    rcases List.mem_cons.mp hn with hn | hn
    · cases hn
      exact le_rfl
    · exact (hr.clock now hn).trans hm.clock
  wrote entry he := by
    rw [newestWritten, (exec_history directory t op w).2.1]
    rcases lastWritten_done (t := t) he with hadd | ⟨hnone, he⟩
    · rw [hadd]
      simp
    · rw [hnone]
      exact hr.wrote entry he
  told report he := by
    rw [newestReport, (exec_history directory t op w).2.2]
    rcases lastReport_done directory he with hadd | ⟨hnone, he⟩
    · rw [hadd]
      simp
    · rw [hnone]
      exact hr.told report he

end SandboxWorld

theorem Conduct.allowed {h : SandboxHistory} {op : SandboxOp}
    (hc : Conduct options directory key h op) : op.Allowed := by
  cases op with
  | transition => exact hc.1
  | _ => trivial

/-- A call binds a resource only to the lease with the resource's key. -/
theorem Conduct.binds {h : SandboxHistory} {op : SandboxOp} {w : SandboxWorld key} {t : ThreadId}
    (hc : Conduct options directory key h op) (hr : w.Recalls t h) (leaseId : ObjectId)
    (ref : SandboxRef) (hop : op = .bindExternalId leaseId ref) (lease : SandboxLease)
    (hl : w.lease? leaseId = some lease) : key ref = lease.provisioningKey := by
  subst hop
  obtain ⟨seen, hs, rfl, hkey⟩ := hc
  obtain ⟨later, hlater, hev⟩ := hr.saw seen hs
  cases Option.some.inj (hl.symm.trans hlater)
  rw [hkey, ← congrArg SandboxReservationRecord.provisioningKey hev.record]

variable (options directory key)

open SandboxWorld in
/-- The invariant of all runs. -/
def leaseDiscipline : Discipline (conformance options directory key) where
  ok _ _ := True
  shared _ w := w.WellFormed
  own t _ h w := w.Recalls t h
  moves m w w' := Moves m w w'
  spawn n call w hw _ := ⟨hw, .nil n w, .of_eq none rfl rfl rfl rfl⟩
  advance c t o call op next h ht _ ha hw hr hc := by
    have hm := exec_moves directory t (Conduct.allowed hc) c.state
    have hw' := exec_wellFormed directory t (Conduct.allowed hc) (Conduct.binds hc hr) hw
    cases o with
    | done => exact ⟨hw', hr.done directory hm hw', hm⟩
    | refused e => exact ⟨hw, hr.refused e, .of_eq (some t) rfl rfl rfl rfl⟩
    | unacknowledged e => exact ⟨hw', hr.unacknowledged directory hm e, hm⟩
  crash _ c t call p h ht _ hw hr :=
    have hm : Moves (some t) c.state (stopProcess t c.state) := .of_eq (some t) rfl rfl rfl rfl
    ⟨⟨hw.fresh, hw.ids, hw.apart, hw.binds⟩, .nil t _, hm⟩
  act c a w _ ha hw := by
    cases a with
    | elapse ms =>
      cases Option.some.inj ha
      refine ⟨⟨hw.fresh, hw.ids, hw.apart, hw.binds⟩, .of_leases rfl, Nat.le_add_right _ _,
        List.suffix_refl _, List.suffix_refl _, fun _ _ => rfl, fun _ _ => rfl⟩
    | change providers =>
      cases Option.some.inj ha
      exact ⟨⟨hw.fresh, hw.ids, hw.apart, hw.binds⟩, .of_eq none rfl rfl rfl rfl⟩
    | abortSignal signal reason =>
      cases Option.some.inj ha
      exact ⟨⟨hw.fresh, hw.ids, hw.apart, hw.binds⟩, .of_eq none rfl rfl rfl rfl⟩
  stable _ _ _ _ u _ _ _ _ hm hu _ hr := hr.stable hm hu

/-- A step performs one operation of a call that has a reason for it, or touches no lease. -/
inductive WorldStep (c : Running key) (l : Step key) (w' : SandboxWorld key) : Prop
  | performs (t : ThreadId) (o : Outcome Failure) (op : SandboxOp) (h : SandboxHistory)
      (hl : l = .advance t o) (happlies : c.applies l = some op) (hrecalls : c.state.Recalls t h)
      (hconduct : Conduct options directory key h op)
      (hw : w' = (c.state.exec directory t op).2)
  | untouched (leases : w'.leases = c.state.leases) (clock : c.state.clock ≤ w'.clock)
      (written : w'.written = c.state.written) (reports : w'.reports = c.state.reports)

variable {options directory key} in
theorem worldStep_of_step {c c' : Running key} {l : Step key}
    (hc : (leaseDiscipline options directory key).Holds c)
    (hstep : (sandboxes options directory).step c l = some c') :
    WorldStep options directory key c l c'.state := by
  cases l with
  | spawn call =>
    obtain ⟨-, rfl⟩ := Machine.step_spawn hstep
    exact .untouched rfl le_rfl rfl rfl
  | advance t o =>
    obtain ⟨call, op, next, ht, ha, rfl⟩ := Machine.step_advance hstep
    obtain ⟨h, hrecalls, hconduct, -⟩ := hc.advancing ht
    have hp : c.pending t = some op := by simp [Config.pending, ht, Prog.pending]
    cases o with
    | done => exact .performs t .done op h rfl hp hrecalls hconduct rfl
    | refused e => exact .untouched rfl le_rfl rfl rfl
    | unacknowledged e => exact .performs t (.unacknowledged e) op h rfl hp hrecalls hconduct rfl
  | crash t =>
    obtain ⟨-, call, p, -, rfl⟩ := Machine.step_crash hstep
    exact .untouched rfl le_rfl rfl rfl
  | act a =>
    obtain ⟨w, ha, rfl⟩ := Machine.step_act hstep
    cases a <;> cases Option.some.inj ha
    · exact .untouched rfl (Nat.le_add_right _ _) rfl rfl
    · exact .untouched rfl le_rfl rfl rfl
    · exact .untouched rfl le_rfl rfl rfl

variable {options directory key} in
/-- The run rule: an invariant of the admissible steps, on top of the one of all runs. -/
theorem sandbox_invariant {ok : Running key → Step key → Prop} {J : SandboxWorld key → Prop}
    (hJ : ∀ c l w', (leaseDiscipline options directory key).Holds c → J c.state → ok c l →
      WorldStep options directory key c l w' → J w')
    {w : SandboxWorld key} {ls : List (Step key)} {c : Running key} (hw : w.WellFormed) (hi : J w)
    (hok : (sandboxes options directory).Along ok (.initial w) ls)
    (hplay : (sandboxes options directory).play (.initial w) ls = some c) :
    (leaseDiscipline options directory key).Holds c ∧ J c.state := by
  refine Machine.play_invariant (J := fun c =>
    (leaseDiscipline options directory key).Holds c ∧ J c.state) ?_ hok hplay
    ⟨Discipline.holds_initial hw, hi⟩
  rintro c l c' ⟨hc, hj⟩ hok hstep
  exact ⟨(Discipline.holds_step hc trivial hstep).1,
    hJ c l c'.state hc hj hok (worldStep_of_step hc hstep)⟩

theorem SandboxWorld.Initial.wellFormed {key : SandboxRef → String} {w : SandboxWorld key}
    (h : w.Initial) : w.WellFormed := by
  constructor <;> simp [h.leases]

end AppBuilder.Sandbox
