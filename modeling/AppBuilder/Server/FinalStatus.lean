import AppBuilder.Server.Lifecycle

/-! Which statuses are final. A cancelled run has no effects, and a persisting run is never
cancelled; one write leaves a terminal status. -/
namespace AppBuilder.Server
open Agent Async Store Branches Routes

section Runs

variable {dependencies : AgentJobProcessorDependencies} {c c' : Running} {ls : List Step}

theorem lifecycle_holds {w : World} (hw : Initial w)
    (h : (server dependencies).play (.initial w) ls = some c) : (lifecycle dependencies).Holds c :=
  Discipline.holds_play (Discipline.holds_initial (lawful_initial hw)) (Machine.along_true _ _) h

theorem lifecycle_grows (hc : (lifecycle dependencies).Holds c)
    (h : (server dependencies).play c ls = some c') : Grows c.state c'.state :=
  Discipline.play_moves Grows.refl (fun _ _ _ => Grows.trans) (fun _ _ _ hm => hm) hc
    (Machine.along_true _ _) h

end Runs

section Cancellation

/-- The run has neither a snapshot nor moved a branch head. -/
def Effectless (w : World) (r : ObjectId) : Prop :=
  (∀ s ∈ w.snapshots, s.sourceRunId ≠ r) ∧ ∀ m ∈ w.headMoves, m.run ≠ some r

private theorem not_persisted {w : World} {r : ObjectId}
    (hc : w.status? r = some .cancelled) : ¬ Persisted w r := by
  rintro ⟨s, hs, hp⟩
  cases Option.some.inj (hc.symm.trans hs)
  cases hp

theorem Lawful.effectless {w : World} {r : ObjectId} (hw : Lawful w)
    (hc : w.status? r = some .cancelled) : Effectless w r := by
  refine ⟨fun s hs he => ?_, fun m hm he => ?_⟩
  · exact not_persisted hc (he ▸ (hw.snapshots s hs).1)
  · exact not_persisted hc (hw.headMoves m hm r he).1

/-- A cancelled run stays cancelled and without effects; a run that was `persisting` is not
cancelled later. -/
theorem cancellation_excludes_effects (dependencies : AgentJobProcessorDependencies) {w : World}
    {ls ms : List Step} {c c' : Running} (hw : Initial w)
    (h : (server dependencies).play (.initial w) ls = some c)
    (h' : (server dependencies).play c ms = some c') (r : ObjectId) :
    (c.state.status? r = some .cancelled →
      c'.state.status? r = some .cancelled ∧ Effectless c'.state r) ∧
    (c.state.status? r = some .persisting → c'.state.status? r ≠ some .cancelled) := by
  have hc := lifecycle_holds hw h
  have hc' : (lifecycle dependencies).Holds c' :=
    Discipline.holds_play hc (Machine.along_true _ _) h'
  have hgrows := lifecycle_grows hc h'
  refine ⟨fun hs => ?_, fun hs hs' => ?_⟩
  · exact ⟨hgrows.cancelled hs, hc'.1.effectless (hgrows.cancelled hs)⟩
  · exact not_persisted hs' (hgrows.persisted ⟨_, hs, rfl⟩)

private def cancelling : List Step :=
  .spawn (.createRun sampleRequest) :: List.replicate 8 (.advance 0 .done) ++
    [.spawn (.deliver ⟨.agentRun, 11, none⟩), .advance 1 .done, .spawn (.cancelRun ⟨3, 11⟩)] ++
    List.replicate 4 (.advance 2 .done)

/-- The worker goes on after the cancellation, and finds its update refused. -/
private def cancelled : List Step := List.replicate 8 (.advance 1 .done)

theorem cancelled_worker_stops : ∃ c c', (server sampleDependencies).play (.initial sampleWorld)
      cancelling = some c ∧ (server sampleDependencies).play c cancelled = some c' ∧
    c'.state.status? 11 = some .cancelled ∧ Effectless c'.state 11 := by
  have hc : ((server sampleDependencies).play (.initial sampleWorld) cancelling).any
      (fun c => c.state.status? 11 == some .cancelled &&
        ((server sampleDependencies).play c cancelled).isSome) = true := by decide
  obtain ⟨c, h, hs⟩ := (Option.any_eq_true ..).mp hc
  obtain ⟨hs, h'⟩ := Bool.and_eq_true_iff.mp hs
  obtain ⟨c', h'⟩ := Option.isSome_iff_exists.mp h'
  exact ⟨c, c', h, h', (cancellation_excludes_effects sampleDependencies sampleWorld_initial h h'
    11).1 (beq_iff_eq.mp hs)⟩

end Cancellation

section Terminal

/-- Terminal statuses are left alone. -/
def KeepsTerminal (w w' : World) : Prop :=
  ∀ r s, isTerminalAgentRunStatus s = true → w.status? r = some s → w'.status? r = some s

theorem KeepsTerminal.refl (w : World) : KeepsTerminal w w := fun _ _ _ h => h

theorem KeepsTerminal.trans {a b c : World} (h : KeepsTerminal a b) (h' : KeepsTerminal b c) :
    KeepsTerminal a c := fun r s ht hs => h' r s ht (h r s ht hs)

theorem KeepsTerminal.of_runs {w w' : World}
    (h : ∀ r run, w.run? r = some run → w'.run? r = some run) : KeepsTerminal w w' := by
  intro r s _ hs
  obtain ⟨run, hrun, he⟩ := Option.map_eq_some_iff.mp hs
  exact Option.map_eq_some_iff.mpr ⟨run, h r run hrun, he⟩

private theorem status?_patchRun {w : World} {t : ThreadId} {r r' : ObjectId} {patch : RunPatch}
    {run : AgentRun} (hrun : w.run? r = some run) :
    (w.patchRun t r patch).status? r' =
      if r' = r then some (patch.apply run).status else w.status? r' := by
  rw [World.status?, World.run?_patchRun]
  split_ifs with he
  · subst he
    rw [hrun]
    rfl
  · rfl

/-- The write of `failGeneration` finds the run completed with a conflict by another execution:
its filter forgets that status. -/
def overwrites (w : World) : Op → Bool
  | .updateRun r (.noneOf statuses) _ =>
    statuses == generationSettledStatuses && w.status? r == some .completedWithConflict
  | _ => false

private theorem not_terminal_of_active {s : AgentRunStatus} (h : s ∈ cancellableStatuses) :
    isTerminalAgentRunStatus s = false := by
  revert h
  cases s <;> decide

/-- Every other update of a job asks for a status that is not terminal. -/
private theorem Update.terminal {φ : Phase} {r : ObjectId} {filter : StatusFilter}
    {patch : RunPatch} {s : AgentRunStatus} (hu : Update φ r filter patch)
    (ha : filter.accepts s = true) (ht : isTerminalAgentRunStatus s = true) :
    filter = .noneOf generationSettledStatuses ∧ s = .completedWithConflict ∧
      patch.status = some .failed := by
  have hequals : ∀ s', filter = .equals s' → isTerminalAgentRunStatus s' = true := by
    rintro s' rfl
    exact eq_of_accepts ha ▸ ht
  cases hu with
  | wait =>
    cases s <;> first | exact absurd ht (by decide) | exact absurd ha (by decide)
  | rebase hrun hbranch hid => exact absurd (hequals _ rfl) (by decide)
  | requeue => exact absurd (hequals _ rfl) (by decide)
  | work hs ht' hstatus hbase =>
    rcases hs with rfl | hs
    · exact absurd (hequals _ rfl) (by decide)
    · have hterminal := hequals _ rfl
      rename_i source _
      cases source <;> first | exact absurd hs (by decide) | exact absurd hterminal (by decide)
  | persist => exact absurd (hequals _ rfl) (by decide)
  | complete hp houtcome hstatus hbase => exact absurd (hequals _ rfl) (by decide)
  | orphan hp hstatus hbase => exact absurd (hequals _ rfl) (by decide)
  | failGeneration hstatus hbase =>
    refine ⟨rfl, ?_, hstatus⟩
    cases s <;> first | rfl | exact absurd ht (by decide) | exact absurd ha (by decide)
  | failRetry hstatus hbase =>
    cases s <;> first | exact absurd ht (by decide) | exact absurd ha (by decide)

variable {φ : Phase} {t : ThreadId} {op : Op} {w w' : World}

/-- What a permitted operation does to terminal statuses. -/
theorem Change.keepsTerminal (h : Change φ t w op w') (ho : overwrites w op = false) :
    KeepsTerminal w w' := by
  cases h with
  | unchanged h => exact .of_runs fun r run hr => by rwa [World.run?, h.runs]
  | @updated r run filter patch hr hu hrun ha =>
    intro r' s ht hs
    rw [status?_patchRun hrun]
    split_ifs with he
    · subst he
      have hs' : run.status = s := by simpa [World.status?, hrun] using hs
      subst hs'
      obtain ⟨rfl, hcwc, -⟩ := hu.terminal ha ht
      rw [hcwc] at hs
      simp [overwrites, hs] at ho
    · exact hs
  | @cancelled r userId run hr hrun hc =>
    intro r' s ht hs
    rw [status?_patchRun hrun]
    split_ifs with he
    · subst he
      have hs' : run.status = s := by simpa [World.status?, hrun] using hs
      subst hs'
      rw [not_terminal_of_active hc] at ht
      cases ht
    · exact hs
  | runInserted hp =>
    refine .of_runs fun r run hr => ?_
    rw [World.run?_insertRun, hr]
    rfl
  | _ => exact .of_runs fun r run hr => hr

/-- The write that is excluded does change a terminal status. -/
theorem overwrites_changes (hp : Permit φ op) (ho : overwrites w op = true) :
    ¬ KeepsTerminal w (World.exec t φ.call.run? op w).2 := by
  unfold overwrites at ho
  split at ho
  · rename_i r statuses patch
    simp only [Bool.and_eq_true, beq_iff_eq] at ho
    obtain ⟨rfl, hs⟩ := ho
    intro hkeeps
    have hkept := hkeeps r .completedWithConflict rfl hs
    obtain ⟨run, hrun, hstatus⟩ := Option.map_eq_some_iff.mp hs
    have ha : StatusFilter.accepts (.noneOf generationSettledStatuses) run.status = true := by
      rw [hstatus]
      rfl
    have hfailed : patch.status = some .failed := by
      cases hp with
      | quiet h => cases h
      | updateRun hr hu => exact (hu.terminal ha (by rw [hstatus]; rfl)).2.2
    simp only [World.exec, World.answer] at hkept
    rcases w.updateRun_cases t r (.noneOf generationSettledStatuses) patch with
      ⟨run', hrun', -, hw⟩ | ⟨hnot, -⟩
    · rw [hw, status?_patchRun hrun', if_pos rfl] at hkept
      simp [hfailed] at hkept
    · rw [hnot run hrun] at ha
      cases ha
  · cases ho

/-- The step takes the write that leaves a terminal status. -/
def overwriting (c : Running) (l : Step) : Bool := (c.applies l).any (overwrites c.state)

variable {dependencies : AgentJobProcessorDependencies}

theorem keepsTerminal_step {c c' : Running} {l : Step} (hc : (lifecycle dependencies).Holds c)
    (h : (server dependencies).step c l = some c') :
    KeepsTerminal c.state c'.state ↔ overwriting c l = false := by
  cases l with
  | spawn call =>
    obtain ⟨-, rfl⟩ := Machine.step_spawn h
    exact iff_of_true (.refl _) rfl
  | crash t =>
    obtain ⟨-, call, p, -, rfl⟩ := Machine.step_crash h
    exact iff_of_true (.of_runs fun r run hr => hr) rfl
  | act a =>
    obtain ⟨w, ha, rfl⟩ := Machine.step_act h
    refine iff_of_true (.of_runs fun r run hr => ?_) rfl
    rwa [World.run?, (act_unchanged ha).runs]
  | advance t o =>
    obtain ⟨call, op, next, ht, -, rfl⟩ := Machine.step_advance h
    obtain ⟨φ, ⟨hcall, -⟩, hp, -⟩ := hc.advancing ht
    have happlied : (c.pending t).any (overwrites c.state) = overwrites c.state op := by
      simp [Config.pending, ht, Prog.pending]
    have hexec : KeepsTerminal c.state (World.exec t call.run? op c.state).2 ↔
        overwrites c.state op = false := by
      subst hcall
      refine ⟨fun hk => ?_, fun ho => (exec_change hp t c.state).keepsTerminal ho⟩
      by_contra ho
      exact overwrites_changes hp (by simpa using ho) hk
    cases o with
    | refused e => exact iff_of_true (.refl _) rfl
    | done => exact hexec.trans (happlied ▸ Iff.rfl)
    | unacknowledged e => exact hexec.trans (happlied ▸ Iff.rfl)

/-- In a run from the start, the status of an agent run that has become terminal never changes
again exactly when no step overwrites `completed_with_conflict`. -/
theorem terminal_status_final_iff (dependencies : AgentJobProcessorDependencies) {w : World}
    {ls : List Step} {c : Running} (hw : Initial w)
    (h : (server dependencies).play (.initial w) ls = some c) :
    (∀ ls₁ ls₂ c₁ c₂, ls₁ ++ ls₂ <+: ls → (server dependencies).play (.initial w) ls₁ = some c₁ →
      (server dependencies).play c₁ ls₂ = some c₂ → KeepsTerminal c₁.state c₂.state) ↔
    (server dependencies).Along (fun c l => overwriting c l = false) (.initial w) ls := by
  have hstart : (lifecycle dependencies).Holds (.initial w) :=
    Discipline.holds_initial (lawful_initial hw)
  rw [Machine.relates_iff_along (r := fun c c' => KeepsTerminal c.state c'.state)
    (fun c => .refl c.state) (fun _ _ _ => KeepsTerminal.trans) h]
  refine Machine.along_iff (J := (lifecycle dependencies).Holds) (fun c l c' hc hs => ?_) h hstart
  refine ⟨(Discipline.holds_step hc trivial hs).1, ?_⟩
  simp only [hs, Option.some.injEq, forall_eq']
  exact keepsTerminal_step hc hs

/-- Two runs start from the same head, and the first moves it. Two workers hold the second run
as it was queued; one of them completes it with a conflict. -/
private def twoWorkers : List Step :=
  .spawn (.createRun sampleRequest) :: List.replicate 8 (.advance 0 .done) ++
    .spawn (.createRun sampleRequest) :: List.replicate 8 (.advance 1 .done) ++
    .spawn (.deliver ⟨.agentRun, 11, none⟩) :: List.replicate 51 (.advance 2 .done) ++
    .spawn (.deliver ⟨.agentRun, 13, none⟩) :: List.replicate 6 (.advance 3 .done) ++
    .spawn (.deliver ⟨.agentRun, 13, none⟩) :: List.replicate 46 (.advance 4 .done)

/-- The other worker finds its first transition refused and stores `failed`. -/
private def secondFails : List Step := List.replicate 5 (.advance 3 .done)

/-- Before the second worker moves, every step keeps what is terminal. -/
theorem terminal_status_kept_by_first_worker : ∃ c,
    (server sampleDependencies).play (.initial sampleWorld) twoWorkers = some c ∧
    (∀ ls₁ ls₂ c₁ c₂, ls₁ ++ ls₂ <+: twoWorkers →
      (server sampleDependencies).play (.initial sampleWorld) ls₁ = some c₁ →
      (server sampleDependencies).play c₁ ls₂ = some c₂ → KeepsTerminal c₁.state c₂.state) := by
  have hc : ((server sampleDependencies).play (.initial sampleWorld) twoWorkers).isSome = true := by
    decide +kernel
  obtain ⟨c, h⟩ := Option.isSome_iff_exists.mp hc
  exact ⟨c, h, (terminal_status_final_iff sampleDependencies sampleWorld_initial h).mpr
    (by decide +kernel)⟩

/-- The status goes from `completed_with_conflict` to `failed`. -/
theorem stale_worker_overwrites_conflict : ¬ ∀ (dependencies : AgentJobProcessorDependencies)
    (w : World) (ls ms : List Step) (c c' : Running), Initial w →
    (server dependencies).play (.initial w) ls = some c →
    (server dependencies).play c ms = some c' → KeepsTerminal c.state c'.state := by
  intro h
  have hc : ((server sampleDependencies).play (.initial sampleWorld) twoWorkers).any
      (fun c => c.state.status? 13 == some .completedWithConflict &&
        ((server sampleDependencies).play c secondFails).any
          (fun c' => c'.state.status? 13 == some .failed)) = true := by decide +kernel
  obtain ⟨c, hplay, hs⟩ := (Option.any_eq_true ..).mp hc
  obtain ⟨hs, hc'⟩ := Bool.and_eq_true_iff.mp hs
  obtain ⟨c', hplay', hs'⟩ := (Option.any_eq_true ..).mp hc'
  have hkept := h _ _ _ _ _ _ sampleWorld_initial hplay hplay' 13 _ rfl (beq_iff_eq.mp hs)
  rw [beq_iff_eq.mp hs'] at hkept
  cases hkept

end Terminal

end AppBuilder.Server
