import AppBuilder.Server.Conformance
import AppBuilder.Server.Effects

/-! The life of a run, whatever the order of steps: what has been stored of it only grows, and what
a call has learnt of it stays true. -/
namespace AppBuilder.Server
open Agent Async Store Branches Routes

/-- The run is at or after the switch to `persisting`. -/
def Persisted (w : World) (r : ObjectId) : Prop :=
  ∃ s, w.status? r = some s ∧ s.isPersisted = true

/-- No status that matters is ever left: `persisting` and what follows it, `cancelled`, and the
terminal statuses together. -/
def Leads (s s' : AgentRunStatus) : Prop :=
  (s.isPersisted = true → s'.isPersisted = true) ∧ (s = .cancelled → s' = .cancelled) ∧
    (isTerminalAgentRunStatus s = true → isTerminalAgentRunStatus s' = true)

instance (s s' : AgentRunStatus) : Decidable (Leads s s') := inferInstanceAs (Decidable (_ ∧ _))

theorem Leads.refl (s : AgentRunStatus) : Leads s s := ⟨id, id, id⟩

theorem Leads.trans {a b c : AgentRunStatus} (h : Leads a b) (h' : Leads b c) : Leads a c :=
  ⟨fun ha => h'.1 (h.1 ha), fun ha => h'.2.1 (h.2.1 ha), fun ha => h'.2.2 (h.2.2 ha)⟩

/-- An active run is not persisted, and may go anywhere. -/
theorem Leads.of_active {s : AgentRunStatus} (h : s ∈ cancellableStatuses) (s' : AgentRunStatus) :
    Leads s s' ∧ s.isPersisted = false := by
  revert h
  cases s <;> cases s' <;> decide

private theorem active_of_working {s : AgentRunStatus} (h : s.isWorking = true) :
    s ∈ cancellableStatuses := by
  revert h
  cases s <;> decide

theorem Leads.completed (outcome : CommitOutcome) :
    Leads .persisting (completedStatus outcome) := by
  cases outcome <;> decide

/-- What a later document of a run has in common with an earlier one. -/
structure RunGrows (run run' : AgentRun) : Prop where
  ref : refOf run' = { refOf run with baseHeadVersion := run'.baseHeadVersion }
  base : run.status.isPersisted = true → run'.baseHeadVersion = run.baseHeadVersion
  status : Leads run.status run'.status

theorem RunGrows.refl (run : AgentRun) : RunGrows run run := ⟨rfl, fun _ => rfl, .refl _⟩

theorem RunGrows.trans {a b c : AgentRun} (h : RunGrows a b) (h' : RunGrows b c) :
    RunGrows a c :=
  ⟨by rw [h'.ref, h.ref], fun hp => (h'.base (h.status.1 hp)).trans (h.base hp),
    h.status.trans h'.status⟩

theorem RunGrows.apply {run : AgentRun} {patch : RunPatch} {s : AgentRunStatus}
    (hs : patch.status = some s) (hl : Leads run.status s)
    (hbase : run.status.isPersisted = true → patch.baseHeadVersion = none) :
    RunGrows run (patch.apply run) :=
  ⟨rfl, fun hp => by simp [hbase hp], by simpa [hs] using hl⟩

private theorem RunGrows.of_active {run : AgentRun} {patch : RunPatch} {s : AgentRunStatus}
    (hs : patch.status = some s) (ha : run.status ∈ cancellableStatuses) :
    RunGrows run (patch.apply run) :=
  have hl := Leads.of_active ha s
  .apply hs hl.1 fun hp => by simp [hl.2] at hp

theorem eq_of_accepts {s s' : AgentRunStatus}
    (h : StatusFilter.accepts (.equals s) s' = true) : s' = s :=
  (beq_iff_eq.mp (show (s == s') = true from h)).symm

/-- A failed run was settled neither before nor by its cancellation. -/
private theorem leads_failed {s : AgentRunStatus} {l : List AgentRunStatus}
    (hl : AgentRunStatus.cancelled ∈ l) (h : StatusFilter.accepts (.noneOf l) s = true) :
    Leads s .failed := by
  have hne : s ≠ .cancelled := by
    rintro rfl
    have h : (!l.contains AgentRunStatus.cancelled) = true := h
    rw [List.contains_iff_mem.mpr hl] at h
    cases h
  revert hne
  cases s <;> decide

/-- The updates of a job take a run forward. -/
theorem Update.grows {φ : Phase} {r : ObjectId} {filter : StatusFilter} {patch : RunPatch}
    {run : AgentRun} (hu : Update φ r filter patch) (ha : filter.accepts run.status = true) :
    RunGrows run (patch.apply run) := by
  cases hu with
  | wait =>
    have hs : run.status = .queued ∨ run.status = .waitingForCapacity := by
      simpa [StatusFilter.accepts] using ha
    exact .of_active rfl (by rcases hs with hs | hs <;> simp [hs, cancellableStatuses])
  | rebase hrun hbranch hid =>
    exact .of_active rfl (by simp [eq_of_accepts ha, cancellableStatuses])
  | requeue => exact .of_active rfl (by simp [eq_of_accepts ha, cancellableStatuses])
  | work hs ht hstatus hbase =>
    refine .of_active hstatus ?_
    rw [eq_of_accepts ha]
    rcases hs with rfl | hs
    · decide
    · exact active_of_working hs
  | persist => exact .of_active rfl (by simp [eq_of_accepts ha, cancellableStatuses])
  | complete hp houtcome hstatus hbase =>
    exact .apply hstatus (eq_of_accepts ha ▸ .completed _) fun _ => hbase
  | orphan hp hstatus hbase =>
    exact .apply hstatus (eq_of_accepts ha ▸ by decide) fun _ => hbase
  | failGeneration hstatus hbase =>
    exact .apply hstatus (leads_failed (by decide) ha) fun _ => hbase
  | failRetry hstatus hbase =>
    exact .apply hstatus (leads_failed (by decide) ha) fun _ => hbase

/-- What a later state of the database has in common with an earlier one. -/
structure Grows (w w' : World) : Prop where
  runs : ∀ r run, w.run? r = some run → ∃ run', w'.run? r = some run' ∧ RunGrows run run'
  snapshots : ∀ r s, w.snapshotOf? r = some s → w'.snapshotOf? r = some s
  guards : ∀ i g, w.guard? i = some g → ∃ g', w'.guard? i = some g' ∧ g'.runId = g.runId
  headMoves : w.headMoves <+: w'.headMoves

theorem Grows.refl (w : World) : Grows w w :=
  ⟨fun _ run h => ⟨run, h, .refl run⟩, fun _ _ h => h, fun _ g h => ⟨g, h, rfl⟩,
    List.prefix_refl _⟩

theorem Grows.trans {a b c : World} (h : Grows a b) (h' : Grows b c) : Grows a c where
  runs r run hr :=
    have ⟨run', hr', hg⟩ := h.runs r run hr
    have ⟨run'', hr'', hg'⟩ := h'.runs r run' hr'
    ⟨run'', hr'', hg.trans hg'⟩
  snapshots r s hs := h'.snapshots r s (h.snapshots r s hs)
  guards i g hg :=
    have ⟨g', hg', he⟩ := h.guards i g hg
    have ⟨g'', hg'', he'⟩ := h'.guards i g' hg'
    ⟨g'', hg'', he'.trans he⟩
  headMoves := h.headMoves.trans h'.headMoves

theorem Grows.persisted {w w' : World} {r : ObjectId} (h : Grows w w') (hp : Persisted w r) :
    Persisted w' r := by
  obtain ⟨s, hs, hps⟩ := hp
  obtain ⟨run, hr, rfl⟩ := Option.map_eq_some_iff.mp hs
  obtain ⟨run', hr', hg⟩ := h.runs r run hr
  exact ⟨run'.status, by simp [World.status?, hr'], hg.status.1 hps⟩

theorem Grows.cancelled {w w' : World} {r : ObjectId} (h : Grows w w')
    (hc : w.status? r = some .cancelled) : w'.status? r = some .cancelled := by
  obtain ⟨run, hr, hs⟩ := Option.map_eq_some_iff.mp hc
  obtain ⟨run', hr', hg⟩ := h.runs r run hr
  simp [World.status?, hr', hg.status.2.1 hs]

theorem Grows.exists {w w' : World} {r : ObjectId} (h : Grows w w') (hr : (w.run? r).isSome) :
    (w'.run? r).isSome := by
  obtain ⟨run, hrun⟩ := Option.isSome_iff_exists.mp hr
  obtain ⟨run', hr', -⟩ := h.runs r run hrun
  simp [hr']

theorem Grows.same {w w' : World} (hr : w'.runs = w.runs) (hs : w'.snapshots = w.snapshots)
    (hg : w'.guards = w.guards) (hm : w'.headMoves = w.headMoves) : Grows w w' :=
  ⟨fun r run h => ⟨run, by rw [World.run?, hr]; exact h, .refl run⟩,
    fun r s h => by rw [World.snapshotOf?, hs]; exact h,
    fun i g h => ⟨g, by rw [World.guard?, hg]; exact h, rfl⟩, hm ▸ List.prefix_refl _⟩

theorem Unchanged.grows {w w' : World} (h : Unchanged w w') : Grows w w' := by
  obtain ⟨f, hf, hkeep⟩ := h.guards
  refine ⟨fun r run hr => ⟨run, by rw [World.run?, h.runs]; exact hr, .refl run⟩,
    fun r s hs => by rw [World.snapshotOf?, h.snapshots]; exact hs, fun i g hg => ?_,
    h.headMoves ▸ List.prefix_refl _⟩
  refine ⟨f g, ?_, (hkeep g).2.1⟩
  rw [World.guard?, hf, findById_map _ _ fun g => (hkeep g).1]
  exact congrArg (Option.map f) hg

theorem grows_patchRun {w : World} {t : ThreadId} {r : ObjectId} {run : AgentRun}
    {patch : RunPatch} (hr : w.run? r = some run) (hg : RunGrows run (patch.apply run)) :
    Grows w (w.patchRun t r patch) := by
  refine ⟨fun r' run' hr' => ?_, fun _ _ h => h, fun _ g h => ⟨g, h, rfl⟩, List.prefix_refl _⟩
  rw [World.run?_patchRun]
  split_ifs with he
  · subst he
    cases Option.some.inj (hr.symm.trans hr')
    exact ⟨_, by rw [hr]; rfl, hg⟩
  · exact ⟨run', hr', .refl run'⟩

/-- Everything stored only grows. -/
theorem Change.grows {φ : Phase} {t : ThreadId} {op : Op} {w w' : World} (h : Change φ t w op w') :
    Grows w w' := by
  cases h with
  | unchanged h => exact h.grows
  | guardAdded hid hr ha =>
    refine ⟨fun _ run h => ⟨run, h, .refl run⟩, fun _ _ h => h, fun i g h => ⟨g, ?_, rfl⟩,
      List.prefix_refl _⟩
    rw [World.guard?, findById_append, show findById w.guards i = some g from h]
    rfl
  | aborted hg hc =>
    refine ⟨fun _ run h => ⟨run, h, .refl run⟩, fun _ _ h => h, fun i g h => ?_,
      List.prefix_refl _⟩
    rw [World.guard?_modifyGuard w _ i (f := fun g => { g with aborted := true }) fun _ => rfl, h]
    split_ifs
    · exact ⟨_, rfl, rfl⟩
    · exact ⟨g, rfl, rfl⟩
  | enqueued h => exact .same rfl rfl rfl rfl
  | updated hr hu hrun ha => exact grows_patchRun hrun (hu.grows ha)
  | cancelled hr hrun hc => exact grows_patchRun hrun (.of_active rfl hc)
  | runInserted hp =>
    refine ⟨fun r run h => ⟨run, ?_, .refl run⟩, fun _ _ h => h, fun _ g h => ⟨g, h, rfl⟩,
      List.prefix_refl _⟩
    rw [World.run?_insertRun, h]
    rfl
  | eventInserted hp => exact .same rfl rfl rfl rfl
  | snapshotInserted hp hnone =>
    refine ⟨fun _ run h => ⟨run, h, .refl run⟩, fun r s h => ?_, fun _ g h => ⟨g, h, rfl⟩,
      List.prefix_refl _⟩
    rw [World.snapshotOf?_insertSnapshot, h]
    rfl
  | branchInserted hp hnone => exact .same rfl rfl rfl rfl
  | headMoved hp hb ha hv =>
    exact ⟨fun _ run h => ⟨run, h, .refl run⟩, fun _ _ h => h, fun _ g h => ⟨g, h, rfl⟩,
      List.prefix_append _ _⟩
  | projectSet hp => exact .same rfl rfl rfl rfl
  | projectAdvanced hp => exact .same rfl rfl rfl rfl

/-- What holds of the database at every moment. -/
structure Lawful (w : World) : Prop where
  runIds : ∀ run ∈ w.runs, run._id < w.nextId
  guardIds : ∀ g ∈ w.guards, g._id < w.nextId
  jobs : ∀ job ∈ w.jobs, (w.run? job.runId).isSome = true
  aborted : ∀ i g, w.guard? i = some g → g.aborted = true → w.status? g.runId = some .cancelled
  snapshots : ∀ s ∈ w.snapshots, Persisted w s.sourceRunId ∧ w.snapshotOf? s.sourceRunId = some s
  headMoves : ∀ m ∈ w.headMoves, ∀ r ∈ m.run, Persisted w r ∧
    (w.snapshotOf? r).map (·._id) = some m.snapshotId ∧
    (w.run? r).bind (·.branchId) = some m.branchId

/-- What a call has learnt is true. -/
structure Knows (w : World) (φ : Phase) : Prop where
  job : ∀ job, φ.call = .deliver job → (w.run? job.runId).isSome = true
  run : ∀ ref, φ.run = some ref → ∃ run, w.run? ref.id = some run ∧
    refOf run = { ref with baseHeadVersion := run.baseHeadVersion }
  subject : ∀ ref r, φ.run = some ref → φ.call.run? = some r → ref.id = r
  guard : ∀ guard, φ.guard = some guard → φ.call.run? = some guard.runId ∧
    ∃ g, w.guard? guard.guardId = some g ∧ g.runId = guard.runId
  created : ∀ r, φ.created = some r → (w.run? r).isSome = true
  sawCancelled : φ.sawCancelled = true → ∀ r, φ.call.run? = some r →
    w.status? r = some .cancelled
  persisted : φ.persisted = true → ∀ r, φ.call.run? = some r → Persisted w r
  snapshot : ∀ s r, φ.snapshot = some s → φ.call.run? = some r →
    (w.snapshotOf? r).map (·._id) = some s

theorem Knows.grow {w w' : World} {φ : Phase} (h : Knows w φ) (hg : Grows w w') : Knows w' φ where
  job job hj := hg.exists (h.job job hj)
  run ref hr := by
    obtain ⟨run, hrun, href⟩ := h.run ref hr
    obtain ⟨run', hrun', hgrow⟩ := hg.runs _ run hrun
    exact ⟨run', hrun', by rw [hgrow.ref, href]⟩
  subject := h.subject
  guard guard hguard := by
    obtain ⟨hr, g, hfound, hid⟩ := h.guard guard hguard
    obtain ⟨g', hg', he⟩ := hg.guards _ g hfound
    exact ⟨hr, g', hg', he.trans hid⟩
  created r hr := hg.exists (h.created r hr)
  sawCancelled hc r hr := hg.cancelled (h.sawCancelled hc r hr)
  persisted hp r hr := hg.persisted (h.persisted hp r hr)
  snapshot s r hs hr := by
    obtain ⟨x, hx, he⟩ := Option.map_eq_some_iff.mp (h.snapshot s r hs hr)
    rw [hg.snapshots r x hx]
    exact congrArg some he

/-- It is enough to look at what is new. -/
private theorem Lawful.grow {w w' : World} (h : Lawful w) (hg : Grows w w')
    (runIds : ∀ run ∈ w'.runs, run._id < w'.nextId)
    (guardIds : ∀ g ∈ w'.guards, g._id < w'.nextId)
    (jobs : ∀ job ∈ w'.jobs, job ∈ w.jobs ∨ (w'.run? job.runId).isSome = true)
    (aborted : ∀ i g, w'.guard? i = some g → g.aborted = true →
      (∃ g₀, w.guard? i = some g₀ ∧ g₀.aborted = true ∧ g₀.runId = g.runId) ∨
        w'.status? g.runId = some .cancelled)
    (snapshots : ∀ s ∈ w'.snapshots, s ∈ w.snapshots ∨
      (Persisted w' s.sourceRunId ∧ w'.snapshotOf? s.sourceRunId = some s))
    (headMoves : ∀ m ∈ w'.headMoves, m ∈ w.headMoves ∨ ∀ r ∈ m.run, Persisted w' r ∧
      (w'.snapshotOf? r).map (·._id) = some m.snapshotId ∧
      (w'.run? r).bind (·.branchId) = some m.branchId) : Lawful w' where
  runIds := runIds
  guardIds := guardIds
  jobs job hj := (jobs job hj).elim (fun h' => hg.exists (h.jobs job h')) id
  aborted i g hm ha := (aborted i g hm ha).elim
    (fun ⟨g₀, hg₀, ha₀, he⟩ => hg.cancelled (he ▸ h.aborted i g₀ hg₀ ha₀)) id
  snapshots s hs := (snapshots s hs).elim
    (fun h' => ⟨hg.persisted (h.snapshots s h').1, hg.snapshots _ s (h.snapshots s h').2⟩) id
  headMoves m hm r hr := by
    rcases headMoves m hm with hm | hm
    · obtain ⟨hp, hs, hb⟩ := h.headMoves m hm r hr
      obtain ⟨x, hx, he⟩ := Option.map_eq_some_iff.mp hs
      obtain ⟨run, hrun, hbranch⟩ := Option.bind_eq_some_iff.mp hb
      obtain ⟨run', hrun', hgrow⟩ := hg.runs r run hrun
      refine ⟨hg.persisted hp, by rw [hg.snapshots r x hx]; exact congrArg some he, ?_⟩
      have href : run'.branchId = run.branchId := congrArg RunRef.branchId hgrow.ref
      rw [hrun']
      exact href.trans hbranch
    · exact hm r hr

private theorem patchRun_ids {w : World} {t : ThreadId} {r : ObjectId} {patch : RunPatch} {n : ℕ}
    (h : ∀ run ∈ w.runs, run._id < n) : ∀ run ∈ (w.patchRun t r patch).runs, run._id < n := by
  intro run hm
  obtain ⟨run₀, hm₀, rfl⟩ := List.mem_map.mp hm
  split_ifs
  · exact h run₀ hm₀
  · exact h run₀ hm₀

theorem Unchanged.lawful {w w' : World} (h : Unchanged w w') (hw : Lawful w) : Lawful w' := by
  obtain ⟨f, hf, hkeep⟩ := h.guards
  refine hw.grow h.grows
    (fun run hr => Nat.lt_of_lt_of_le (hw.runIds run (h.runs ▸ hr)) h.nextId) (fun g hm => ?_)
    (fun job hj => .inl (h.jobs ▸ hj)) (fun i g hm ha => ?_)
    (fun s hs => .inl (h.snapshots ▸ hs)) (fun m hm => .inl (h.headMoves ▸ hm))
  · obtain ⟨g₀, hg₀, rfl⟩ := List.mem_map.mp (hf ▸ hm)
    exact (hkeep g₀).1 ▸ Nat.lt_of_lt_of_le (hw.guardIds g₀ hg₀) h.nextId
  · rw [World.guard?, hf, findById_map _ _ fun g => (hkeep g).1] at hm
    obtain ⟨g₀, hg₀, rfl⟩ := Option.map_eq_some_iff.mp hm
    exact .inl ⟨g₀, hg₀, (hkeep g₀).2.2 ha, (hkeep g₀).2.1.symm⟩

/-- Whatever a permitted operation writes keeps the database lawful. -/
theorem Change.lawful {φ : Phase} {t : ThreadId} {op : Op} {w w' : World}
    (h : Change φ t w op w') (hw : Lawful w) (hk : Knows w φ) : Lawful w' := by
  have hg := h.grows
  have hids : ∀ {n}, w.nextId ≤ n → ∀ run ∈ w.runs, run._id < n := fun hn run hr =>
    Nat.lt_of_lt_of_le (hw.runIds run hr) hn
  have hgids : ∀ {n}, w.nextId ≤ n → ∀ g ∈ w.guards, g._id < n := fun hn g hm =>
    Nat.lt_of_lt_of_le (hw.guardIds g hm) hn
  have hold : ∀ i g, w.guard? i = some g → g.aborted = true →
      (∃ g₀, w.guard? i = some g₀ ∧ g₀.aborted = true ∧ g₀.runId = g.runId) ∨
        w'.status? g.runId = some .cancelled := fun i g hm ha => .inl ⟨g, hm, ha, rfl⟩
  cases h with
  | unchanged h => exact h.lawful hw
  | guardAdded hid hr ha =>
    refine hw.grow hg (hids (Nat.le_succ _)) (fun g hm => ?_) (fun job hj => .inl hj)
      (fun i g hm hab => ?_) (fun s hs => .inl hs) (fun m hm => .inl hm)
    · rcases List.mem_append.mp hm with hm | hm
      · exact hgids (Nat.le_succ _) g hm
      · cases List.mem_singleton.mp hm
        exact hid ▸ Nat.lt_succ_self _
    · rw [World.guard?, findById_append, Option.or_eq_some_iff] at hm
      rcases hm with hm | ⟨-, hm⟩
      · exact .inl ⟨g, hm, hab, rfl⟩
      · split_ifs at hm
        cases Option.some.inj hm
        rw [ha] at hab
        cases hab
  | @aborted guard hguard hc =>
    obtain ⟨hr, g₁, hg₁, hrun⟩ := hk.guard guard hguard
    refine hw.grow hg hw.runIds (fun g hm => ?_) (fun job hj => .inl hj) (fun i g hm hab => ?_)
      (fun s hs => .inl hs) (fun m hm => .inl hm)
    · obtain ⟨g₀, hg₀, rfl⟩ := List.mem_map.mp hm
      split_ifs
      · exact hw.guardIds g₀ hg₀
      · exact hw.guardIds g₀ hg₀
    · rw [World.guard?_modifyGuard w _ i (f := fun g => { g with aborted := true })
        fun _ => rfl] at hm
      split_ifs at hm with hi
      · subst hi
        rw [hg₁] at hm
        cases Option.some.inj hm
        exact .inr (hrun ▸ hk.sawCancelled hc _ hr)
      · exact hold i g hm hab
  | enqueued h =>
    refine hw.grow hg hw.runIds hw.guardIds (fun job hj => ?_) hold (fun s hs => .inl hs)
      (fun m hm => .inl hm)
    rcases List.mem_append.mp hj with hj | hj
    · exact .inl hj
    · cases List.mem_singleton.mp hj
      exact .inr (hk.created _ h)
  | updated hr hu hrun ha =>
    refine hw.grow hg (fun run hm => ?_) hw.guardIds (fun job hj => .inl hj) hold
      (fun s hs => .inl hs) (fun m hm => .inl hm)
    exact patchRun_ids hw.runIds run hm
  | cancelled hr hrun hc =>
    refine hw.grow hg (fun run hm => ?_) hw.guardIds (fun job hj => .inl hj) hold
      (fun s hs => .inl hs) (fun m hm => .inl hm)
    exact patchRun_ids hw.runIds run hm
  | runInserted hp =>
    refine hw.grow hg (fun run hm => ?_) (hgids (Nat.le_succ _)) (fun job hj => .inl hj) hold
      (fun s hs => .inl hs) (fun m hm => .inl hm)
    rcases List.mem_append.mp hm with hm | hm
    · exact hids (Nat.le_succ _) run hm
    · cases List.mem_singleton.mp hm
      exact Nat.lt_succ_self _
  | eventInserted hp =>
    exact hw.grow hg (hids (Nat.le_succ _)) (hgids (Nat.le_succ _)) (fun job hj => .inl hj) hold
      (fun s hs => .inl hs) (fun m hm => .inl hm)
  | snapshotInserted hp hnone =>
    refine hw.grow hg (hids (Nat.le_succ _)) (hgids (Nat.le_succ _)) (fun job hj => .inl hj) hold
      (fun s hs => ?_) (fun m hm => .inl hm)
    rcases List.mem_append.mp hs with hs | hs
    · exact .inl hs
    · cases List.mem_singleton.mp hs
      cases hp with
      | quiet h => cases h
      | upsertSnapshot hr hp =>
        refine .inr ⟨hg.persisted (hk.persisted hp _ hr), ?_⟩
        rw [World.snapshotOf?_insertSnapshot, hnone]
        exact if_pos rfl
  | branchInserted hp hnone =>
    exact hw.grow hg (hids (Nat.le_succ _)) (hgids (Nat.le_succ _)) (fun job hj => .inl hj) hold
      (fun s hs => .inl hs) (fun m hm => .inl hm)
  | headMoved hp hb ha hv =>
    refine hw.grow hg hw.runIds hw.guardIds (fun job hj => .inl hj) hold (fun s hs => .inl hs)
      (fun m hm => ?_)
    rcases List.mem_append.mp hm with hm | hm
    · exact .inl hm
    · cases List.mem_singleton.mp hm
      refine .inr fun r hr => ?_
      cases hp with
      | quiet h => cases h
      | commit hcall hp hrun hbranch hv hs hm =>
        cases Option.some.inj (hcall.symm.trans hr)
        obtain ⟨run, hfound, href⟩ := hk.run _ hrun
        have hbr : run.branchId = _ := (congrArg RunRef.branchId href).trans hbranch
        refine ⟨hk.persisted hp _ hr, hk.snapshot _ _ hs hr, ?_⟩
        show (w.run? _).bind _ = _
        rw [hfound]
        exact hbr
      | rollback hcall hb hid hv hm =>
        rw [hcall] at hr
        cases hr
  | projectSet hp =>
    exact hw.grow hg hw.runIds hw.guardIds (fun job hj => .inl hj) hold (fun s hs => .inl hs)
      (fun m hm => .inl hm)
  | projectAdvanced hp =>
    exact hw.grow hg hw.runIds hw.guardIds (fun job hj => .inl hj) hold (fun s hs => .inl hs)
      (fun m hm => .inl hm)

theorem Knows.fail {w : World} {φ : Phase} (h : Knows w φ) : Knows w φ.fail :=
  ⟨h.job, h.run, h.subject, h.guard, h.created, h.sawCancelled, h.persisted, h.snapshot⟩

theorem Knows.next_error {w : World} {φ : Phase} (h : Knows w φ) (op : Op) (e : AgentError) :
    Knows w (φ.next op (.error e)) := by
  rcases Server.next_error φ op e with he | he
  · rw [he]
    exact h.fail
  · rw [he]
    exact h

section Answers

variable {w w' : World} {φ : Phase}

private theorem Knows.onStatus {r : ObjectId} (hk : Knows w φ) (hr : φ.call.run? = some r) :
    Knows w (φ.onStatus (w.status? r)) := by
  refine { hk with sawCancelled := fun hc r' hr' => ?_ }
  cases Option.some.inj (hr.symm.trans hr')
  rcases Bool.or_eq_true_iff.mp hc with hc | hc
  · exact hk.sawCancelled hc r hr
  · exact beq_iff_eq.mp hc

private theorem Knows.onRun {r : ObjectId} (hk : Knows w φ) (hr : φ.call.run? = some r)
    (site : ReadSite) : Knows w (φ.onRun site (w.run? r)) := by
  have hrun : ∀ ref, (w.run? r).map refOf = some ref → ∃ run, w.run? ref.id = some run ∧
      refOf run = { ref with baseHeadVersion := run.baseHeadVersion } := by
    intro ref href
    obtain ⟨run, hfound, rfl⟩ := Option.map_eq_some_iff.mp href
    have hid : (refOf run).id = r := docId_of_findById hfound
    exact ⟨run, hid.symm ▸ hfound, rfl⟩
  have hsubject : ∀ ref r', (w.run? r).map refOf = some ref → φ.call.run? = some r' →
      ref.id = r' := by
    intro ref r' href hr'
    obtain ⟨run, hfound, rfl⟩ := Option.map_eq_some_iff.mp href
    exact (docId_of_findById hfound).trans (Option.some.inj (hr.symm.trans hr'))
  cases site with
  | createAgentJobProcessor => exact { hk with run := hrun, subject := hsubject }
  | processValidationCandidate => exact { hk with run := hrun, subject := hsubject }
  | processAgentRun =>
    refine { hk with run := hrun, subject := hsubject, persisted := fun hp r' hr' => ?_ }
    rcases Bool.or_eq_true_iff.mp hp with hp | hp
    · exact hk.persisted hp r' hr'
    · cases Option.some.inj (hr.symm.trans hr')
      obtain ⟨run, hfound, hs⟩ := (Option.any_eq_true ..).mp hp
      refine ⟨run.status, by simp [World.status?, hfound], ?_⟩
      rw [beq_iff_eq.mp hs]
      rfl
  | _ => exact hk

private theorem Knows.onBranch (hk : Knows w φ) (site : ReadSite) (branch : Option ProjectBranch) :
    Knows w (φ.onBranch site branch) := by
  unfold Phase.onBranch
  split
  · exact { hk with }
  · exact { hk with }
  · split
    · exact hk
    · exact { hk with }
  · exact hk

private theorem Knows.onUpdate {r : ObjectId} {filter : StatusFilter} {patch : RunPatch} {n : ℕ}
    (hk : Knows w φ) (hr : φ.call.run? = some r)
    (hp : n = 1 → patch.status = some .persisting → Persisted w r) :
    Knows w (φ.onUpdate filter patch n) := by
  unfold Phase.onUpdate
  split
  · split
    · exact hk
    · exact { hk with }
  · rename_i hstatus
    split
    · refine { hk with persisted := fun _ r' hr' => ?_ }
      cases Option.some.inj (hr.symm.trans hr')
      exact hp ‹_› hstatus
    · exact hk
  · exact { hk with }
  · split
    · exact { hk with }
    · exact { hk with }
  · split
    · exact { hk with }
    · exact { hk with }
  · exact hk

private theorem Knows.onCommit {input : SetBranchHead} (hk : Knows w φ)
    (hs : ∀ r, φ.call.run? = some r → φ.snapshot = some input.snapshotId)
    (advanced : Option ProjectBranch) : Knows w (φ.onCommit input advanced) := by
  cases advanced with
  | none => exact { hk with }
  | some branch =>
    refine { hk with snapshot := fun s r hs' hr => hk.snapshot s r ?_ hr }
    exact (hs r hr).trans hs'

private theorem Knows.onCreated {fields run : AgentRun} {t : ThreadId} {r? : Option ObjectId}
    (hk : Knows w' φ) (hexec : World.exec t r? (.createRun fields) w = (.ok run, w')) :
    Knows w' { φ with created := some run._id } := by
  refine { hk with created := fun r hr => ?_ }
  cases Option.some.inj hr
  simp only [World.exec] at hexec
  rcases w.createRun_cases fields with hc | hc
  · rw [hc] at hexec
    cases hexec
    show ((w.insertRun fields).2.run? w.nextId).isSome = true
    rw [World.run?_insertRun, if_pos rfl]
    cases w.run? w.nextId <;> rfl
  · rw [hc] at hexec
    cases hexec

/-- What an answer teaches is true of the database that gave it. -/
theorem Knows.next {op : Op} {t : ThreadId} {v : op.Reply} (hp : Permit φ op) (hw : Lawful w)
    (hw' : Lawful w') (hk : Knows w' φ)
    (hexec : World.exec t φ.call.run? op w = (.ok v, w')) : Knows w' (φ.next op (.ok v)) := by
  cases hp with
  | quiet h =>
    rw [next_quiet φ h]
    exact hk
  | findRunStatus hr =>
    cases hexec
    exact hk.onStatus hr
  | findRun site hr =>
    cases hexec
    exact hk.onRun hr site
  | findRetryableRun r userId hr =>
    cases hexec
    refine { hk with run := fun ref href => ?_, subject := fun ref r' _ hr' => ?_ }
    · obtain ⟨run, hfound, rfl⟩ := Option.map_eq_some_iff.mp href
      have hfound := (Option.filter_eq_some_iff.mp hfound).1
      have hid : (refOf run).id = r := docId_of_findById hfound
      exact ⟨run, hid.symm ▸ hfound, rfl⟩
    · exact absurd (hr.symm.trans hr') (by simp)
  | newGuard leaseId branchId ttlMs hr =>
    cases hexec
    refine { hk with guard := fun guard hg => ?_ }
    cases Option.some.inj hg
    refine ⟨hr, ⟨w.nextId, t, leaseId, _, branchId, ttlMs, true, false, false, false, false⟩, ?_,
      rfl⟩
    rw [World.guard?, findById_append, findById_fresh hw.guardIds]
    exact if_pos rfl
  | guardAborted hg =>
    cases hexec
    refine { hk with sawCancelled := fun hc r hr => ?_ }
    obtain ⟨hr', g, hfound, hid⟩ := hk.guard _ hg
    rcases Bool.or_eq_true_iff.mp hc with hc | hc
    · exact hk.sawCancelled hc r hr
    · rw [hfound] at hc
      cases Option.some.inj (hr'.symm.trans hr)
      exact hid ▸ hw.aborted _ g hfound hc
  | abortGuard hg hc => exact hk
  | findOwnedProject p userId hm => exact { hk with }
  | findActiveBranch b hp hm => exact { hk with }
  | upsertMainBranch hp hm => exact { hk with }
  | findRunBranch site hrun hb hsite => exact hk.onBranch site v
  | explainCommit hrun hb hs href hm => exact hk.onBranch .commitBranchHead v
  | createRun hp hb hstatus hbranch hbase hproject huser => exact hk.onCreated hexec
  | retryRun hs hstatus href => exact hk.onCreated hexec
  | enqueue h => exact hk
  | @updateRun r filter patch hr h =>
    refine hk.onUpdate hr fun hn hstatus => ?_
    simp only [World.exec, World.answer] at hexec
    rcases w.updateRun_cases t r filter patch with ⟨run, hrun, -, hu⟩ | ⟨-, hu⟩
    · rw [hu] at hexec
      cases hexec
      refine ⟨.persisting, ?_, rfl⟩
      simp [World.status?, World.run?_patchRun, hrun, hstatus]
    · rw [hu] at hexec
      cases hexec
      cases hn
  | cancelRun userId hr =>
    rw [Phase.next_cancelRun]
    split
    · exact { hk with }
    · exact hk
  | createEvent h =>
    rw [Phase.next_createEvent]
    split
    · exact { hk with }
    · exact hk
  | finalEvent hr h =>
    rw [Phase.next_createEvent]
    split
    · exact { hk with }
    · exact hk
  | eventExists type hr hs =>
    rw [Phase.next_eventExists]
    split
    · exact hk
    · exact { hk with }
  | findSnapshot h =>
    simp only [Phase.next_findSnapshot, h]
    exact hk
  | @findRunSnapshot q r hr h =>
    cases hexec
    simp only [Phase.next_findSnapshot, h]
    refine { hk with snapshot := fun s r' hs hr' => ?_ }
    cases Option.some.inj (hr.symm.trans hr')
    obtain ⟨x, hx, rfl⟩ := Option.map_eq_some_iff.mp hs
    have hsource : x.sourceRunId = r := by
      have hm := List.find?_some hx
      simp only [SnapshotQuery.matches, h, Bool.and_eq_true, Option.all_some, beq_iff_eq] at hm
      exact hm.1.1.1.1.1.2.symm
    rw [← hsource, (hw.snapshots x (List.mem_of_find?_eq_some hx)).2]
    rfl
  | @upsertSnapshot fields hr hp =>
    refine { hk with snapshot := fun s r hs hr' => ?_ }
    cases Option.some.inj (hr.symm.trans hr')
    simp only [World.exec, World.answer] at hexec
    rcases w.upsertSnapshot_cases fields with ⟨x, hx, hu⟩ | ⟨hnone, hu⟩
    · rw [hu] at hexec
      cases hexec
      rw [hx]
      exact hs
    · rw [hu] at hexec
      cases hexec
      rw [World.snapshotOf?_insertSnapshot, hnone, if_pos rfl]
      exact hs
  | commit hr hp hrun hb hv hs hm => exact hk.onCommit (fun _ _ => hs) v
  | rollback hc hb hid hv hm =>
    refine hk.onCommit (fun r hr => ?_) v
    rw [hc] at hr
    cases hr
  | setActiveSnapshot hm hrun hs => exact { hk with }
  | advanceActiveSnapshot hm hp hs => exact { hk with }

end Answers

private theorem Phase.onBranch_call (φ : Phase) (site : ReadSite) (branch : Option ProjectBranch) :
    (φ.onBranch site branch).call = φ.call := by
  unfold Phase.onBranch
  split
  · rfl
  · rfl
  · split <;> rfl
  · rfl

private theorem Phase.onUpdate_call (φ : Phase) (filter : StatusFilter) (patch : RunPatch) (n : ℕ) :
    (φ.onUpdate filter patch n).call = φ.call := by
  unfold Phase.onUpdate
  split
  · split <;> rfl
  · split <;> rfl
  · rfl
  · split <;> rfl
  · split <;> rfl
  · rfl

@[simp] theorem Phase.next_call (φ : Phase) (op : Op) (r : api.Answer op) :
    (φ.next op r).call = φ.call := by
  cases r with
  | error e =>
    rcases Server.next_error φ op e with h | h
    · rw [h]
      rfl
    · rw [h]
  | ok v =>
    cases op with
    | findRun id site => cases site <;> rfl
    | findBranch id site => exact φ.onBranch_call site v
    | updateRun id filter patch => exact φ.onUpdate_call filter patch v
    | setBranchHead input => cases v <;> rfl
    | cancelRun id userId =>
      rw [Phase.next_cancelRun]
      split <;> rfl
    | createEvent fields =>
      rw [Phase.next_createEvent]
      split <;> rfl
    | eventExists id type =>
      rw [Phase.next_eventExists]
      split <;> rfl
    | findSnapshot q =>
      rw [Phase.next_findSnapshot]
      split <;> rfl
    | _ => rfl

theorem Call.start_call (call : Call) : call.start.call = call := by
  cases call <;> rfl

variable (dependencies : AgentJobProcessorDependencies)

/-- The state after an operation is a change, even when its reply is lost. -/
theorem perform_change {φ : Phase} {op : Op} {call : Call} (hp : Permit φ op)
    (hcall : φ.call = call) (t : ThreadId) (w : World) (o : Outcome AgentError) :
    Change φ t w op ((server dependencies).perform t call op w o).2 := by
  rcases (server dependencies).perform_state t call op w o with h | h
  · rw [h]
    exact .unchanged (.refl w)
  · rw [h]
    exact hcall ▸ exec_change hp t w

theorem lawful_initial {w : World} (h : Initial w) : Lawful w where
  runIds := by simp [h.runs]
  guardIds := by simp [h.guards]
  jobs := by simp [h.jobs]
  aborted := by simp [World.guard?, findById, h.guards]
  snapshots := by simp [h.snapshots]
  headMoves := by simp [h.headMoves]

theorem Call.knows_start {call : Call} {w : World} (hw : Lawful w)
    (hs : call.spawnable w = true) : Knows w call.start := by
  have hguard : ∀ guard : GuardHandle,
      ((w.guard? guard.guardId).any fun g => g.handle == guard) = true →
      ∃ g, w.guard? guard.guardId = some g ∧ g.runId = guard.runId := by
    intro guard h
    obtain ⟨g, hg, he⟩ := (Option.any_eq_true ..).mp h
    exact ⟨g, hg, congrArg GuardHandle.runId (beq_iff_eq.mp he)⟩
  cases call with
  | deliver job =>
    refine ⟨fun job' hj => ?_, ?_, ?_, ?_, ?_, ?_, ?_, ?_⟩
    · cases hj
      exact hw.jobs job (List.contains_iff_mem.mp hs)
    all_goals simp [Call.start]
  | heartbeat guard =>
    refine ⟨?_, ?_, ?_, fun _ hg => ?_, ?_, ?_, ?_, ?_⟩
    case refine_4 =>
      cases hg
      exact ⟨rfl, hguard guard hs⟩
    all_goals simp [Call.start]
  | checkCancellation guard =>
    refine ⟨?_, ?_, ?_, fun _ hg => ?_, ?_, ?_, ?_, ?_⟩
    case refine_4 =>
      cases hg
      exact ⟨rfl, hguard guard hs⟩
    all_goals simp [Call.start]
  | _ => refine ⟨?_, ?_, ?_, ?_, ?_, ?_, ?_, ?_⟩ <;> simp [Call.start]

/-- Every run of the server keeps the database lawful and the calls informed. -/
def lifecycle : Discipline (serverConformance dependencies) where
  ok _ _ := True
  shared _ := Lawful
  own _ call φ w := φ.call = call ∧ Knows w φ
  moves _ := Grows
  spawn _ call w hw hs := ⟨hw, ⟨call.start_call, call.knows_start hw hs⟩, .refl w⟩
  advance c t o call op _ φ _ _ _ hw hown hp := by
    obtain ⟨hcall, hk⟩ := hown
    have hchange := perform_change dependencies hp hcall t c.state o
    have hk' := hk.grow hchange.grows
    have hw' := hchange.lawful hw hk
    refine ⟨hw', ⟨(φ.next_call op _).trans hcall, ?_⟩, hchange.grows⟩
    cases o with
    | refused e => exact hk'.next_error op e
    | unacknowledged e => exact hk'.next_error op e
    | done =>
      subst hcall
      cases hr : World.exec t φ.call.run? op c.state with
      | mk r w' =>
        have hstate : ((server dependencies).perform t φ.call op c.state .done).2 = w' :=
          congrArg Prod.snd hr
        have hreply : ((server dependencies).perform t φ.call op c.state .done).1 = r :=
          congrArg Prod.fst hr
        rw [hstate] at hk' hw' ⊢
        rw [hreply]
        cases r with
        | error e => exact hk'.next_error op e
        | ok v => exact hk'.next hp hw hw' hr
  crash _ c t call _ φ _ _ hw hown := by
    have hu := stopTimers_unchanged t c.state
    exact ⟨hu.lawful hw, ⟨hown.1, { hown.2.grow hu.grows with }⟩, hu.grows⟩
  act c a w _ ha hw := by
    exact ⟨(act_unchanged ha).lawful hw, (act_unchanged ha).grows⟩
  stable _ _ _ _ _ _ _ _ _ hm _ _ hown := ⟨hown.1, hown.2.grow hm⟩

end AppBuilder.Server
