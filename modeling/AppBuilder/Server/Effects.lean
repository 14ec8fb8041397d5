import AppBuilder.Server.Phase
import AppBuilder.Store.Updates

/-! What a step of the server can do to the database: one case for each kind of write. -/
namespace AppBuilder.Server
open Agent Async Store Branches Routes

/-- The documents that the invariants speak of are as they were. -/
structure SameCore (w w' : World) : Prop where
  runs : w'.runs = w.runs
  events : w'.events = w.events
  snapshots : w'.snapshots = w.snapshots
  branches : w'.branches = w.branches
  projects : w'.projects = w.projects
  headMoves : w'.headMoves = w.headMoves
  unmirrored : w'.unmirrored = w.unmirrored
  owing : w'.owing = w.owing

/-- Guards keep their identity, and none is aborted. -/
def GuardsKept (w w' : World) : Prop :=
  ∃ f : ExecutionGuard → ExecutionGuard, w'.guards = w.guards.map f ∧
    ∀ g, (f g)._id = g._id ∧ (f g).runId = g.runId ∧ ((f g).aborted = true → g.aborted = true)

structure Unchanged (w w' : World) : Prop extends SameCore w w' where
  guards : GuardsKept w w'
  jobs : w'.jobs = w.jobs
  nextId : w.nextId ≤ w'.nextId

theorem GuardsKept.refl (w : World) : GuardsKept w w := ⟨id, by simp, fun _ => ⟨rfl, rfl, id⟩⟩

theorem Unchanged.refl (w : World) : Unchanged w w :=
  ⟨⟨rfl, rfl, rfl, rfl, rfl, rfl, rfl, rfl⟩, .refl w, rfl, Nat.le_refl _⟩

/-- The state after an operation that is permitted in phase `φ` of thread `t`. -/
inductive Change (φ : Phase) (t : ThreadId) (w : World) : Op → World → Prop where
  | unchanged {op w'} (h : Unchanged w w') : Change φ t w op w'
  | guardAdded {leaseId runId branchId ttlMs} {g : ExecutionGuard} (hid : g._id = w.nextId)
      (hr : φ.call.run? = some g.runId) (ha : g.aborted = false) :
      Change φ t w (.newGuard leaseId runId branchId ttlMs)
        { w with guards := w.guards ++ [g], nextId := w.nextId + 1 }
  | aborted {guard : GuardHandle} (hg : φ.guard = some guard) (hc : φ.sawCancelled = true) :
      Change φ t w (.abortGuard guard.guardId)
        (w.modifyGuard guard.guardId ({ · with aborted := true }))
  | enqueued {job : AgentRunJob} (h : φ.created = some job.runId) :
      Change φ t w (.enqueue job) { w with jobs := w.jobs ++ [job] }
  | updated {r run filter patch} (hr : φ.call.run? = some r) (hu : Update φ r filter patch)
      (hrun : w.run? r = some run) (ha : filter.accepts run.status = true) :
      Change φ t w (.updateRun r filter patch) (w.patchRun t r patch)
  | cancelled {r userId run} (hr : φ.call.run? = some r) (hrun : w.run? r = some run)
      (hc : run.status ∈ cancellableStatuses) : Change φ t w (.cancelRun r userId)
        (w.patchRun t r { status := some .cancelled, completedAt := some w.clock })
  | runInserted {fields} (hp : Permit φ (.createRun fields)) :
      Change φ t w (.createRun fields) (w.insertRun fields).2
  | eventInserted {fields} (hp : Permit φ (.createEvent fields)) :
      Change φ t w (.createEvent fields) (w.insertEvent t fields).2
  | snapshotInserted {fields} (hp : Permit φ (.upsertSnapshot fields))
      (hnone : w.snapshotOf? fields.sourceRunId = none) :
      Change φ t w (.upsertSnapshot fields) (w.insertSnapshot fields).2
  | branchInserted {fields} (hp : Permit φ (.upsertMainBranch fields))
      (hnone : w.mainBranch? fields.projectId = none) :
      Change φ t w (.upsertMainBranch fields) (w.insertBranch fields).2
  | headMoved {input b} (hp : Permit φ (.setBranchHead input))
      (hb : w.branch? input.branchId = some b) (ha : b.status = .active)
      (hv : b.headVersion = input.expectedHeadVersion) :
      Change φ t w (.setBranchHead input) (w.moveHead t φ.call.run? input)
  | projectSet {p u s v} (hp : Permit φ (.setActiveSnapshot p u s v)) :
      Change φ t w (.setActiveSnapshot p u s v) (w.setActiveSnapshot t p u s v)
  | projectAdvanced {p s} (hp : Permit φ (.advanceActiveSnapshot p s)) :
      Change φ t w (.advanceActiveSnapshot p s) (w.advanceActiveSnapshot t p s)

private theorem modifyGuard_unchanged (w : World) (i : ObjectId)
    {f : ExecutionGuard → ExecutionGuard}
    (hf : ∀ g, (f g)._id = g._id ∧ (f g).runId = g.runId ∧ ((f g).aborted = true → g.aborted = true)) :
    Unchanged w (w.modifyGuard i f) := by
  refine ⟨⟨rfl, rfl, rfl, rfl, rfl, rfl, rfl, rfl⟩,
    ⟨fun g => if docId g == i then f g else g, rfl, fun g => ?_⟩, rfl, Nat.le_refl _⟩
  by_cases hg : (docId g == i) = true
  · simp only [hg, if_true]
    exact hf g
  · simp only [hg]
    exact ⟨rfl, rfl, id⟩

/-- A quiet operation writes no document that the invariants speak of. -/
theorem exec_quiet {op : Op} (h : quiet op = true) (t : ThreadId) (run : Option ObjectId)
    (w : World) : Unchanged w (World.exec t run op w).2 := by
  have hcore : ∀ w' : World, SameCore w w' → w'.guards = w.guards → w'.jobs = w.jobs →
      w.nextId ≤ w'.nextId → Unchanged w w' := fun w' hs hg hj hn =>
    ⟨hs, ⟨id, by simpa using hg, fun _ => ⟨rfl, rfl, id⟩⟩, hj, hn⟩
  cases op with
  | writeBundle input =>
    simp only [World.exec, World.writeBundle]
    split
    · split_ifs <;> exact .refl w
    · exact hcore _ ⟨rfl, rfl, rfl, rfl, rfl, rfl, rfl, rfl⟩ rfl rfl (Nat.le_succ _)
  | upsertCandidate fields =>
    simp only [World.exec, World.answer, World.upsertCandidate]
    split
    · exact .refl w
    · exact hcore _ ⟨rfl, rfl, rfl, rfl, rfl, rfl, rfl, rfl⟩ rfl rfl (Nat.le_succ _)
  | upsertLease fields now =>
    simp only [World.exec]
    rcases w.upsertLease_cases fields now with ⟨l, -, -, -, hw⟩ | hw | ⟨-, hw⟩
    · rw [hw]
      exact hcore _ ⟨rfl, rfl, rfl, rfl, rfl, rfl, rfl, rfl⟩ rfl rfl (Nat.le_refl _)
    · rw [hw]
      exact .refl w
    · rw [hw]
      exact hcore _ ⟨rfl, rfl, rfl, rfl, rfl, rfl, rfl, rfl⟩ rfl rfl (Nat.le_succ _)
  | renewLease leaseId runId now ttlMs =>
    simp only [World.exec, World.answer]
    rcases w.renewLease_cases leaseId runId now ttlMs with ⟨l, -, -, hw⟩ | hw
    · rw [hw]
      exact hcore _ ⟨rfl, rfl, rfl, rfl, rfl, rfl, rfl, rfl⟩ rfl rfl (Nat.le_refl _)
    · rw [hw]
      exact .refl w
  | beginRenewal g =>
    simp only [World.exec]
    split_ifs
    · exact modifyGuard_unchanged w g fun _ => ⟨rfl, rfl, id⟩
    · exact .refl w
  | setGuardLost g lost => exact modifyGuard_unchanged w g fun _ => ⟨rfl, rfl, id⟩
  | endRenewal g => exact modifyGuard_unchanged w g fun _ => ⟨rfl, rfl, id⟩
  | clearHeartbeat g => exact modifyGuard_unchanged w g fun _ => ⟨rfl, rfl, id⟩
  | closeMonitor g => exact modifyGuard_unchanged w g fun _ => ⟨rfl, rfl, id⟩
  | deleteCandidate _ | appendChat _ _ | setLeaseBase _ _ _ | deleteLease _ _ =>
    exact hcore _ ⟨rfl, rfl, rfl, rfl, rfl, rfl, rfl, rfl⟩ rfl rfl (Nat.le_refl _)
  | _ => first | exact .refl w | cases h

/-- The step lemma of the server. -/
theorem exec_change {φ : Phase} {op : Op} (hp : Permit φ op) (t : ThreadId) (w : World) :
    Change φ t w op (World.exec t φ.call.run? op w).2 := by
  have hrefl : Change φ t w op w := .unchanged (.refl w)
  cases op with
  | createRun fields =>
    simp only [World.exec]
    rcases w.createRun_cases fields with hw | hw
    · rw [hw]
      exact .runInserted hp
    · rw [hw]
      exact hrefl
  | updateRun r filter patch =>
    simp only [World.exec, World.answer]
    rcases w.updateRun_cases t r filter patch with ⟨run, hrun, ha, hw⟩ | ⟨-, hw⟩
    · rw [hw]
      cases hp with
      | quiet h => cases h
      | updateRun hr hu => exact .updated hr hu hrun ha
    · rw [hw]
      exact hrefl
  | cancelRun r userId =>
    simp only [World.exec, World.answer]
    rcases w.cancelRun_cases t r userId with ⟨run, hrun, hc, hw⟩ | hw
    · rw [hw]
      cases hp with
      | quiet h => cases h
      | cancelRun _ hr => exact .cancelled hr hrun hc
    · rw [hw]
      exact hrefl
  | createEvent fields =>
    simp only [World.exec]
    rcases w.createEvent_cases t fields with ⟨-, hw⟩ | ⟨-, hw⟩
    · rw [hw]
      exact hrefl
    · rw [hw]
      exact .eventInserted hp
  | upsertSnapshot fields =>
    simp only [World.exec, World.answer]
    rcases w.upsertSnapshot_cases fields with ⟨s, -, hw⟩ | ⟨hnone, hw⟩
    · rw [hw]
      exact hrefl
    · rw [hw]
      exact .snapshotInserted hp hnone
  | upsertMainBranch fields =>
    simp only [World.exec, World.answer]
    rcases w.upsertMainBranch_cases fields with ⟨b, -, hw⟩ | ⟨hnone, hw⟩
    · rw [hw]
      exact hrefl
    · rw [hw]
      exact .branchInserted hp hnone
  | setBranchHead input =>
    simp only [World.exec, World.answer]
    rcases w.setBranchHead_cases t φ.call.run? input with ⟨b, hb, ha, hv, hw⟩ | ⟨-, hw⟩
    · rw [hw]
      exact .headMoved hp hb ha hv
    · rw [hw]
      exact hrefl
  | setActiveSnapshot p u s v => exact .projectSet hp
  | advanceActiveSnapshot p s => exact .projectAdvanced hp
  | newGuard leaseId runId branchId ttlMs =>
    cases hp with
    | quiet h => cases h
    | newGuard _ _ _ hr => exact .guardAdded rfl hr rfl
  | abortGuard i =>
    cases hp with
    | quiet h => cases h
    | abortGuard hg hc => exact .aborted hg hc
  | enqueue job =>
    cases hp with
    | quiet h => cases h
    | enqueue h => exact .enqueued h
  | findRun _ _ | findRunStatus _ | findRetryableRun _ _ | eventExists _ _ | findSnapshot _
  | findBranch _ _ | findActiveBranch _ _ _ | findOwnedProject _ _ | guardAborted _ => exact hrefl
  | _ =>
    cases hp with
    | quiet h => exact .unchanged (exec_quiet h t _ w)

/-- Nothing but the steps of threads changes the documents. -/
theorem act_unchanged {a : Act} {w w' : World} (h : a.apply w = some w') : Unchanged w w' := by
  have hcore : ∀ w' : World, SameCore w w' → w'.guards = w.guards → w'.jobs = w.jobs →
      w.nextId = w'.nextId → Unchanged w w' := fun w' hs hg hj hn =>
    ⟨hs, ⟨id, by simpa using hg, fun _ => ⟨rfl, rfl, id⟩⟩, hj, Nat.le_of_eq hn⟩
  cases a with
  | elapse ms =>
    cases Option.some.inj h
    exact hcore _ ⟨rfl, rfl, rfl, rfl, rfl, rfl, rfl, rfl⟩ rfl rfl rfl
  | expireLease leaseId =>
    simp only [Act.apply] at h
    split_ifs at h
    cases Option.some.inj h
    exact hcore _ ⟨rfl, rfl, rfl, rfl, rfl, rfl, rfl, rfl⟩ rfl rfl rfl
  | expireCandidate candidateId =>
    simp only [Act.apply] at h
    split_ifs at h
    cases Option.some.inj h
    exact hcore _ ⟨rfl, rfl, rfl, rfl, rfl, rfl, rfl, rfl⟩ rfl rfl rfl

theorem stopTimers_unchanged (t : ThreadId) (w : World) : Unchanged w (stopTimers t w) := by
  refine ⟨⟨rfl, rfl, rfl, rfl, rfl, rfl, rfl, rfl⟩, ⟨_, rfl, fun g => ?_⟩, rfl, Nat.le_refl _⟩
  split_ifs
  · exact ⟨rfl, rfl, id⟩
  · exact ⟨rfl, rfl, id⟩

end AppBuilder.Server
