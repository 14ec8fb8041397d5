import AppBuilder.Store.Operations

/-! What the compound operations answer, and what they change. -/
namespace AppBuilder.Store
open Agent Async

theorem Op.mem_inserted? {op : Op} {fields : AgentEvent} :
    fields ∈ op.inserted? ↔ op = .createEvent fields := by
  cases op <;> simp [inserted?, eq_comm]

theorem Op.mem_clearsLost? {op : Op} {g : ObjectId} :
    g ∈ op.clearsLost? ↔ op = .setGuardLost g false := by
  cases op with
  | setGuardLost i lost => cases lost <;> simp [clearsLost?]
  | _ => simp [clearsLost?]

/-- An answer of the operation itself, or of an environment that fails it. -/
def Op.Answered (op : Op) (r : api.Answer op) : Prop :=
  (∃ t run w, (World.exec t run op w).1 = r) ∨ ∃ e, r = .error e ∧ op.mayFail e = true

/-- Worker memory and the clock always answer. -/
theorem exec_ok_of_inMemory {op : Op} (h : op.inMemory = true) (t : ThreadId)
    (run : Option ObjectId) (w : World) : ∃ v, (World.exec t run op w).1 = .ok v := by
  cases op with
  | beginRenewal g =>
    simp only [World.exec]
    split_ifs
    · exact ⟨_, rfl⟩
    · exact ⟨_, rfl⟩
  | _ => first | exact ⟨_, rfl⟩ | cases h

theorem Op.noError {op : Op} (h : op.inMemory = true) {C : AgentError → Prop} (e : AgentError)
    (he : op.Answered (.error e)) : C e := by
  obtain ⟨t, run, w, hr⟩ | ⟨e', -, hf⟩ := he
  · obtain ⟨v, hv⟩ := exec_ok_of_inMemory h t run w
    rw [hv] at hr
    cases hr
  · simp [mayFail, h] at hf

/-- No operation raises the error of a cancelled run. -/
theorem Op.Answered.code_ne {op : Op} {e : AgentError} (h : op.Answered (.error e)) :
    e.code ≠ .runCancelled := by
  obtain ⟨t, run, w, hr⟩ | ⟨e', he, hf⟩ := h
  · intro hc
    cases op with
    | createRun fields =>
      simp only [World.exec, World.createRun] at hr
      split_ifs at hr
      rw [← Except.error.inj hr] at hc
      cases hc
    | createEvent fields =>
      simp only [World.exec, World.createEvent] at hr
      split_ifs at hr
      rw [← Except.error.inj hr] at hc
      cases hc
    | writeBundle input =>
      simp only [World.exec, World.writeBundle] at hr
      split at hr
      · split_ifs at hr
        rw [← Except.error.inj hr] at hc
        cases hc
      · cases hr
    | readOwnedBundle q =>
      simp only [World.exec] at hr
      split at hr
      · cases hr
      · rw [← Except.error.inj hr] at hc
        cases hc
    | upsertLease fields now =>
      simp only [World.exec, World.upsertLease] at hr
      split at hr
      · cases hr
      · split_ifs at hr
        rw [← Except.error.inj hr] at hc
        cases hc
    | beginRenewal g =>
      simp only [World.exec] at hr
      split_ifs at hr
    | _ => cases hr
  · cases Except.error.inj he
    intro hc
    simp [mayFail, hc, artifactErrorCodes] at hf

section Walk

/- Rules to walk a program, one awaited operation at a time. -/
variable {Φ α : Type} {P : Protocol api Φ} {φ : Φ} {op : Op} {f : op.Reply → Promise α}
  {Q : α → Φ → Prop} {X : AgentError → Φ → Prop}

theorem tracks_then (hp : P.permits φ op)
    (hv : ∀ v, P.possible op (.ok v) → P.Tracks (f v) (P.next φ op (.ok v)) Q X)
    (he : ∀ e, P.possible op (.error e) → X e (P.next φ op (.error e))) :
    P.Tracks ((perform op).bind f) φ Q X :=
  (Protocol.tracks_bind ..).mpr ((tracks_perform φ).mpr ⟨hp, hv, he⟩)

theorem tracks_last {Q : op.Reply → Φ → Prop} (hp : P.permits φ op)
    (hv : ∀ v, P.possible op (.ok v) → Q v (P.next φ op (.ok v)))
    (he : ∀ e, P.possible op (.error e) → X e (P.next φ op (.error e))) :
    P.Tracks (perform op) φ Q X := (tracks_perform φ).mpr ⟨hp, hv, he⟩

/-- An access to worker memory never fails. -/
theorem tracks_memory (hP : P.possible = Op.Answered) (hp : P.permits φ op)
    (hm : op.inMemory = true)
    (hv : ∀ v, P.possible op (.ok v) → P.Tracks (f v) (P.next φ op (.ok v)) Q X) :
    P.Tracks ((perform op).bind f) φ Q X :=
  tracks_then hp hv fun e he => by
    rw [hP] at he
    exact (Op.noError hm (C := fun _ => False) e he).elim

theorem tracks_memory_last (hP : P.possible = Op.Answered) {Q : op.Reply → Φ → Prop}
    (hp : P.permits φ op) (hm : op.inMemory = true)
    (hv : ∀ v, P.possible op (.ok v) → Q v (P.next φ op (.ok v))) :
    P.Tracks (perform op) φ Q X :=
  tracks_last hp hv fun e he => by
    rw [hP] at he
    exact (Op.noError hm (C := fun _ => False) e he).elim

end Walk

namespace World

variable {w w' : World} {t : ThreadId} {r : ObjectId}

/-- Either the sequence number is taken and nothing happens, or the event is stored. -/
theorem createEvent_cases (w : World) (t : ThreadId) (fields : AgentEvent) :
    ((∃ e ∈ w.log fields.runId, e.sequence = fields.sequence) ∧
      w.createEvent t fields = (.error duplicateKeyError, w)) ∨
    ((∀ e ∈ w.log fields.runId, e.sequence ≠ fields.sequence) ∧
      w.createEvent t fields = (.ok (w.insertEvent t fields).1, (w.insertEvent t fields).2)) := by
  by_cases h : ∃ e ∈ w.log fields.runId, e.sequence = fields.sequence
  · exact .inl ⟨h, by simpa [createEvent] using h⟩
  · exact .inr ⟨by simpa using h, by rw [createEvent, if_neg (by simpa using h)]⟩

theorem insertEvent_log (w : World) (t : ThreadId) (fields : AgentEvent) (r : ObjectId) :
    (w.insertEvent t fields).2.log r =
      w.log r ++ if fields.runId = r then [(w.insertEvent t fields).1] else [] := by
  by_cases hr : fields.runId = r <;> simp [log, insertEvent, List.filter_append, hr]

/-- An upsert of a lease rewrites a row of the branch, is rejected by the unique index, or inserts
the first row of the branch. -/
theorem upsertLease_cases (w : World) (fields : BranchExecutionLease) (now : Time) :
    (∃ l ∈ w.leases, l.branchId = fields.branchId ∧
      (l.runId = fields.runId ∨ l.expiresAt ≤ now) ∧
      w.upsertLease fields now = (.ok { fields with _id := l._id },
        { w with leases := modifyById w.leases l._id fun l => { fields with _id := l._id } })) ∨
    w.upsertLease fields now = (.error duplicateKeyError, w) ∨
    ((∀ l ∈ w.leases, l.branchId ≠ fields.branchId) ∧
      w.upsertLease fields now = (.ok { fields with _id := w.nextId },
        { w with
          leases := w.leases ++ [{ fields with _id := w.nextId }], nextId := w.nextId + 1 })) := by
  cases hf : w.leases.find? fun l =>
      l.branchId == fields.branchId && (l.runId == fields.runId || l.expiresAt ≤ now) with
  | some l =>
    have hl := List.find?_some hf
    simp only [Bool.and_eq_true, beq_iff_eq, Bool.or_eq_true, decide_eq_true_eq] at hl
    exact .inl ⟨l, List.mem_of_find?_eq_some hf, hl.1, hl.2, by simp only [upsertLease, hf]⟩
  | none =>
    by_cases ha : ∃ l ∈ w.leases, l.branchId = fields.branchId
    · exact .inr (.inl (by simp only [upsertLease, hf]; rw [if_pos (by simpa using ha)]))
    · refine .inr (.inr ⟨by simpa using ha, ?_⟩)
      simp only [upsertLease, hf]
      rw [if_neg (by simpa using ha)]

/-- A renewal rewrites times of the row if the row is of this run, and nothing otherwise. -/
theorem renewLease_cases (w : World) (leaseId runId : ObjectId) (now : Time) (ttlMs : ℕ) :
    (∃ l, findById w.leases leaseId = some l ∧ l.runId = runId ∧
      (w.renewLease leaseId runId now ttlMs).2 = { w with
        leases := modifyById w.leases leaseId fun l =>
          { l with heartbeatAt := now, expiresAt := now + ttlMs } }) ∨
    (w.renewLease leaseId runId now ttlMs).2 = w := by
  cases hl : findById w.leases leaseId with
  | none => exact .inr (by simp only [renewLease, hl])
  | some l =>
    by_cases hr : l.runId = runId
    · exact .inl ⟨l, rfl, hr, by simp only [renewLease, hl, hr, beq_self_eq_true, if_true]⟩
    · have hb : (l.runId == runId) = false := by simpa using hr
      exact .inr (by simp only [renewLease, hl, hb]; rfl)

theorem guard?_modifyGuard (w : World) (g i : ObjectId) {f : ExecutionGuard → ExecutionGuard}
    (hf : ∀ x, (f x)._id = x._id) :
    (w.modifyGuard g f).guard? i = if i = g then (w.guard? i).map f else w.guard? i :=
  findById_modifyById w.guards g i f hf

end World

theorem answered_ok {op : Op} {v : op.Reply} (h : op.Answered (.ok v)) :
    ∃ t run w, (World.exec t run op w).1 = .ok v := by
  obtain h | ⟨e, he, -⟩ := h
  · exact h
  · cases he

theorem answered_findRun {id : ObjectId} {site : ReadSite} {run : AgentRun}
    (h : (Op.findRun id site).Answered (.ok (some run))) : run._id = id := by
  obtain ⟨t, r, w, hw⟩ := answered_ok h
  exact docId_of_findById (Except.ok.inj hw)

theorem answered_findBranch {id : ObjectId} {site : ReadSite} {branch : ProjectBranch}
    (h : (Op.findBranch id site).Answered (.ok (some branch))) : branch._id = id := by
  obtain ⟨t, r, w, hw⟩ := answered_ok h
  exact docId_of_findById (Except.ok.inj hw)

theorem answered_findRetryableRun {id userId : ObjectId} {run : AgentRun}
    (h : (Op.findRetryableRun id userId).Answered (.ok (some run))) : run.userId = userId := by
  obtain ⟨t, r, w, hw⟩ := answered_ok h
  have hu := (Option.filter_eq_some_iff.mp (Except.ok.inj hw)).2
  simp only [Bool.and_eq_true, beq_iff_eq] at hu
  exact hu.1.1

theorem answered_findOwnedProject {id userId : ObjectId} {project : Project}
    (h : (Op.findOwnedProject id userId).Answered (.ok (some project))) :
    project._id = id ∧ project.userId = userId := by
  obtain ⟨t, r, w, hw⟩ := answered_ok h
  obtain ⟨hp, hu⟩ := Option.filter_eq_some_iff.mp (Except.ok.inj hw)
  exact ⟨docId_of_findById hp, by simpa using hu⟩

/-- The lease that an upsert answers has the fields that were asked for. -/
theorem answered_upsertLease {fields l : BranchExecutionLease} {now : Time}
    (h : (Op.upsertLease fields now).Answered (.ok l)) : l = { fields with _id := l._id } := by
  obtain ⟨t, run, w, hr⟩ | ⟨e, hr, -⟩ := h
  · rcases World.upsertLease_cases w fields now with ⟨row, -, -, -, hw⟩ | hw | ⟨-, hw⟩
    all_goals
      simp only [World.exec, hw, Except.ok.injEq, reduceCtorEq] at hr
    · rw [← hr]
    · rw [← hr]
  · cases hr

end AppBuilder.Store
