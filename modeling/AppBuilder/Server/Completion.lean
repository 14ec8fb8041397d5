import AppBuilder.Server.HeadMoves

/-! A run is completed only when its snapshot has been the head of its branch. -/
namespace AppBuilder.Server
open Agent Async Store Branches Routes

/-- The snapshot is the head of the branch. -/
def HeadIs (w : World) (branchId snapshotId : ObjectId) : Prop :=
  ∃ b, w.branch? branchId = some b ∧ b.headSnapshotId = some snapshotId

/-- The branch and the snapshot of the run are among the heads that have been seen. -/
def Shown (seen : ObjectId → ObjectId → Prop) (w : World) (r : ObjectId) : Prop :=
  ∃ b s, (w.run? r).bind (·.branchId) = some b ∧ (w.snapshotOf? r).map (·._id) = some s ∧ seen b s

section Steps

variable {seen : ObjectId → ObjectId → Prop} {w w' : World} {φ ψ : Phase} {t : ThreadId} {op : Op}

theorem Shown.grow {r : ObjectId} (h : Shown seen w r) (hg : Grows w w') : Shown seen w' r := by
  obtain ⟨b, s, hb, hs, hseen⟩ := h
  obtain ⟨run, hrun, hbranch⟩ := Option.bind_eq_some_iff.mp hb
  obtain ⟨run', hrun', hgrow⟩ := hg.runs r run hrun
  obtain ⟨snapshot, hsnapshot, hid⟩ := Option.map_eq_some_iff.mp hs
  have href : run'.branchId = run.branchId := congrArg RunRef.branchId hgrow.ref
  refine ⟨b, s, ?_, ?_, hseen⟩
  · rw [hrun']
    exact href.trans hbranch
  · rw [hg.snapshots r snapshot hsnapshot]
    exact congrArg some hid

/-- Every run that is completed has been shown. -/
def CompletedShown (seen : ObjectId → ObjectId → Prop) (w : World) : Prop :=
  ∀ r, w.status? r = some .completed → Shown seen w r

/-- A call that has moved the head, or has found it moved. -/
def OutcomeShown (seen : ObjectId → ObjectId → Prop) (w : World) (φ : Phase) : Prop :=
  ∀ outcome r, φ.outcome = some outcome → outcome ≠ .conflict → φ.call.run? = some r →
    Shown seen w r

theorem OutcomeShown.same (h : OutcomeShown seen w φ) (hcall : ψ.call = φ.call)
    (houtcome : ψ.outcome = φ.outcome) : OutcomeShown seen w ψ := by
  intro outcome r ho hne hr
  exact h outcome r (houtcome.symm.trans ho) hne (by rw [← hcall]; exact hr)

/-- Only the outcome of a commit completes a run. -/
theorem Update.completed {r : ObjectId} {filter : StatusFilter} {patch : RunPatch} {run : AgentRun}
    (hu : Update φ r filter patch) (ha : filter.accepts run.status = true)
    (h : (patch.apply run).status = .completed) :
    ∃ outcome, φ.outcome = some outcome ∧ outcome ≠ .conflict := by
  have h : patch.status.getD run.status = .completed := h
  cases hu with
  | complete hp houtcome hstatus hbase =>
    refine ⟨_, houtcome, ?_⟩
    rintro rfl
    rw [hstatus] at h
    cases h
  | work hs ht hstatus hbase =>
    rw [hstatus, Option.getD_some] at h
    rw [h] at ht
    cases ht
  | orphan hp hstatus hbase =>
    rw [hstatus] at h
    cases h
  | failGeneration hstatus hbase =>
    rw [hstatus] at h
    cases h
  | failRetry hstatus hbase =>
    rw [hstatus] at h
    cases h
  | _ => cases h

theorem Change.completedShown (h : Change φ t w op w') (hs : CompletedShown seen w)
    (ho : OutcomeShown seen w φ) : CompletedShown seen w' := by
  have hg := h.grows
  have hsame : (∀ r, w'.status? r = some .completed → w.status? r = some .completed) →
      CompletedShown seen w' := fun hback r hr => (hs r (hback r hr)).grow hg
  cases h with
  | unchanged h =>
    refine hsame fun r hr => ?_
    rwa [World.status?, World.run?, h.runs] at hr
  | @updated r run filter patch hr hu hrun ha =>
    intro r' hr'
    obtain ⟨run', hrun', hstatus⟩ := Option.map_eq_some_iff.mp hr'
    rw [World.run?_patchRun] at hrun'
    split_ifs at hrun' with he
    · subst he
      rw [hrun] at hrun'
      cases Option.some.inj hrun'
      obtain ⟨outcome, houtcome, hne⟩ := hu.completed ha hstatus
      exact (ho outcome r' houtcome hne hr).grow hg
    · exact (hs r' (Option.map_eq_some_iff.mpr ⟨run', hrun', hstatus⟩)).grow hg
  | @cancelled r userId run hr hrun hc =>
    refine hsame fun r' hr' => ?_
    obtain ⟨run', hrun', hstatus⟩ := Option.map_eq_some_iff.mp hr'
    rw [World.run?_patchRun] at hrun'
    split_ifs at hrun' with he
    · subst he
      rw [hrun] at hrun'
      cases Option.some.inj hrun'
      cases hstatus
    · exact Option.map_eq_some_iff.mpr ⟨run', hrun', hstatus⟩
  | @runInserted fields hp =>
    refine hsame fun r hr => ?_
    obtain ⟨run, hrun, hstatus⟩ := Option.map_eq_some_iff.mp hr
    rw [World.run?_insertRun, Option.or_eq_some_iff] at hrun
    rcases hrun with hrun | ⟨-, hrun⟩
    · exact Option.map_eq_some_iff.mpr ⟨run, hrun, hstatus⟩
    · split_ifs at hrun
      cases Option.some.inj hrun
      cases hp with
      | quiet h => cases h
      | createRun hp hb hqueued hbranch hbase hproject huser =>
        rw [show fields.status = .completed from hstatus] at hqueued
        cases hqueued
      | retryRun hs hqueued href =>
        rw [show fields.status = .completed from hstatus] at hqueued
        cases hqueued
  | _ => exact hsame fun _ hr => hr

end Steps

section Answers

variable {seen : ObjectId → ObjectId → Prop} {w w' : World} {φ : Phase} {t : ThreadId} {op : Op}

private theorem Phase.onUpdate_outcome (φ : Phase) (filter : StatusFilter) (patch : RunPatch)
    (n : ℕ) : (φ.onUpdate filter patch n).outcome = φ.outcome := by
  unfold Phase.onUpdate
  split
  · split <;> rfl
  · split <;> rfl
  · rfl
  · split <;> rfl
  · split <;> rfl
  · rfl

private theorem Phase.onBranch_outcome (φ : Phase) {site : ReadSite} (h : site ≠ .commitBranchHead)
    (branch : Option ProjectBranch) : (φ.onBranch site branch).outcome = φ.outcome := by
  unfold Phase.onBranch
  split
  · rfl
  · exact absurd rfl h
  · split <;> rfl
  · rfl

theorem OutcomeShown.next_error (h : OutcomeShown seen w φ) (op : Op) (e : AgentError) :
    OutcomeShown seen w (φ.next op (.error e)) := by
  rcases Server.next_error φ op e with he | he
  · rw [he]
    exact h.same rfl rfl
  · rw [he]
    exact h

/-- A commit moves the head of the run's branch to its snapshot. -/
private theorem OutcomeShown.onCommit {ref : RunRef} {input : SetBranchHead}
    {advanced : Option ProjectBranch} (h : OutcomeShown seen w' φ) (hk : Knows w' φ)
    (hseen : ∀ b s, HeadIs w' b s → seen b s) (hcall : φ.call.run? = some ref.id)
    (href : φ.run = some ref) (hbranch : ref.branchId = some input.branchId)
    (hsnapshot : φ.snapshot = some input.snapshotId)
    (hexec : World.exec t φ.call.run? (.setBranchHead input) w = (.ok advanced, w')) :
    OutcomeShown seen w' (φ.onCommit input advanced) := by
  simp only [World.exec, World.answer] at hexec
  rcases w.setBranchHead_cases t φ.call.run? input with ⟨b, hb, ha, hv, hw⟩ | ⟨-, hw⟩
  · rw [hw] at hexec
    cases hexec
    intro outcome r ho hne hr
    have hr : φ.call.run? = some r := hr
    cases Option.some.inj (hcall.symm.trans hr)
    obtain ⟨run, hrun, hrb⟩ := hk.branchId href
    refine ⟨input.branchId, input.snapshotId, ?_, hk.snapshot _ _ hsnapshot hcall, hseen _ _ ?_⟩
    · rw [hrun]
      exact hrb.trans hbranch
    · exact ⟨_, (World.branch?_moveHead ..).trans ((if_pos rfl).trans (congrArg _ hb)), rfl⟩
  · rw [hw] at hexec
    cases hexec
    exact h.same rfl rfl

/-- A refused commit looks whether the head is at the snapshot all the same. -/
private theorem OutcomeShown.explained {ref : RunRef} {b s : ObjectId}
    (h : OutcomeShown seen w φ) (hk : Knows w φ) (hseen : ∀ b s, HeadIs w b s → seen b s)
    (href : φ.run = some ref) (hbranch : ref.branchId = some b) (hsnapshot : φ.snapshot = some s) :
    OutcomeShown seen w (φ.onBranch .commitBranchHead (w.branch? b)) := by
  cases hb : w.branch? b with
  | none => exact h
  | some branch =>
    intro outcome r ho hne hr
    have hr : φ.call.run? = some r := hr
    have ho : (if (branch.headSnapshotId == φ.snapshot) = true then CommitOutcome.alreadyAdvanced
        else .conflict) = outcome := Option.some.inj ho
    by_cases hhead : branch.headSnapshotId = φ.snapshot
    · obtain ⟨run, hrun, hrb⟩ := hk.branchId href
      have hsubject := hk.subject ref r href hr
      rw [hsubject] at hrun
      refine ⟨b, s, ?_, hk.snapshot s r hsnapshot hr, hseen b s ⟨branch, hb, hhead.trans hsnapshot⟩⟩
      rw [hrun]
      exact hrb.trans hbranch
    · rw [if_neg (by simpa using hhead)] at ho
      exact absurd ho.symm hne

theorem OutcomeShown.next {v : op.Reply} (hp : Permit φ op) (h : OutcomeShown seen w' φ)
    (hk : Knows w' φ) (hseen : ∀ b s, HeadIs w' b s → seen b s)
    (hexec : World.exec t φ.call.run? op w = (.ok v, w')) :
    OutcomeShown seen w' (φ.next op (.ok v)) := by
  cases hp with
  | quiet hq =>
    rw [next_quiet φ hq]
    exact h
  | findRun site hr => cases site <;> exact h.same rfl rfl
  | findRunBranch site hrun hb hsite =>
    exact h.same (φ.next_call _ _) (φ.onBranch_outcome hsite v)
  | explainCommit hrun hb hs href hm =>
    cases hexec
    exact h.explained hk hseen hrun hb hs
  | @updateRun r filter patch hr hu =>
    exact h.same (φ.next_call _ _) (φ.onUpdate_outcome filter patch v)
  | cancelRun userId hr =>
    rw [Phase.next_cancelRun]
    split
    · exact h.same rfl rfl
    · exact h
  | createEvent he =>
    rw [Phase.next_createEvent]
    split
    · exact h.same rfl rfl
    · exact h
  | finalEvent hr he =>
    rw [Phase.next_createEvent]
    split
    · exact h.same rfl rfl
    · exact h
  | eventExists type hr hs =>
    rw [Phase.next_eventExists]
    split
    · exact h
    · exact h.same rfl rfl
  | findSnapshot hq =>
    rw [Phase.next_findSnapshot]
    split
    · exact h.same rfl rfl
    · exact h
  | findRunSnapshot hr hq =>
    rw [Phase.next_findSnapshot]
    split
    · exact h.same rfl rfl
    · exact h
  | commit hr hp hrun hb hv hs hm => exact h.onCommit hk hseen hr hrun hb hs hexec
  | rollback hc hb hid hv hm =>
    intro outcome r ho hne hr
    rw [φ.next_call, hc] at hr
    cases hr
  | _ => exact h.same rfl rfl

end Answers

variable (dependencies : AgentJobProcessorDependencies)

/-- The lifecycle of a run in which all heads are among those that have been seen. -/
def completion (seen : ObjectId → ObjectId → Prop) : Extension (lifecycle dependencies) where
  ok c l := ∀ d, (server dependencies).step c l = some d → ∀ b s, HeadIs d.state b s → seen b s
  shared _ := CompletedShown seen
  own _ _ φ w := OutcomeShown seen w φ
  moves _ _ _ := True
  spawn _ call w _ hs _ _ := by
    refine ⟨hs, fun outcome r ho => ?_, trivial⟩
    cases call <;> cases ho
  advance c t o call op next φ ht hok ha hw hown hp _ _ hgrows hs ho := by
    obtain ⟨hcall, hk⟩ := hown
    have hstep : (server dependencies).step c (.advance t o) =
        some ⟨((server dependencies).perform t call op c.state o).2, c.threads.set t
          ⟨call, next ((server dependencies).perform t call op c.state o).1, false⟩⟩ := by
      simp only [Machine.step, ht, ha, if_true]
    have hseen := hok _ hstep
    have hchange := perform_change dependencies hp hcall t c.state o
    have hk' := hk.grow hchange.grows
    have ho' : OutcomeShown seen ((server dependencies).perform t call op c.state o).2 φ :=
      fun outcome r h hne hr => (ho outcome r h hne hr).grow hchange.grows
    refine ⟨hchange.completedShown hs ho, ?_, trivial⟩
    cases o with
    | refused e => exact ho'.next_error op e
    | unacknowledged e => exact ho'.next_error op e
    | done =>
      subst hcall
      cases hr : World.exec t φ.call.run? op c.state with
      | mk r w' =>
        have hstate : ((server dependencies).perform t φ.call op c.state .done).2 = w' :=
          congrArg Prod.snd hr
        have hreply : ((server dependencies).perform t φ.call op c.state .done).1 = r :=
          congrArg Prod.fst hr
        rw [hstate] at ho' hk' hseen ⊢
        rw [hreply]
        cases r with
        | error e => exact ho'.next_error op e
        | ok v => exact ho'.next hp hk' hseen hr
  crash _ c t call _ φ _ _ _ _ hgrows hs ho := by
    have hu := stopTimers_unchanged t c.state
    refine ⟨fun r hr => (hs r ?_).grow hgrows, fun outcome r h hne hr => ?_, trivial⟩
    · have hr : (stopTimers t c.state).status? r = some .completed := hr
      rwa [World.status?, World.run?, hu.runs] at hr
    · exact (ho outcome r h hne hr).grow hgrows
  act c a w _ ha _ hgrows hs := by
    have hu := act_unchanged ha
    refine ⟨fun r hr => (hs r ?_).grow hgrows, trivial⟩
    rwa [World.status?, World.run?, hu.runs] at hr
  stable _ _ _ _ _ _ _ _ _ hgrows _ _ _ _ _ _ ho outcome r h hne hr :=
    (ho outcome r h hne hr).grow hgrows

section Runs

variable {dependencies : AgentJobProcessorDependencies} {w : World} {ls : List Step} {c : Running}

/-- At some moment of the run the snapshot was the head of the branch. -/
def WasHead (dependencies : AgentJobProcessorDependencies) (w : World) (ls : List Step)
    (branchId snapshotId : ObjectId) : Prop :=
  ∃ ms d, ms <+: ls ∧ (server dependencies).play (.initial w) ms = some d ∧
    HeadIs d.state branchId snapshotId

/-- Whatever is delivered again, crashes or rolls back, a run that is stored as completed has a
snapshot, and at some moment that snapshot was the head of its branch. -/
theorem completed_was_head (hw : Initial w)
    (h : (server dependencies).play (.initial w) ls = some c) {r : ObjectId}
    (hcompleted : c.state.status? r = some .completed) :
    Shown (WasHead dependencies w ls) c.state r := by
  have halong : (server dependencies).Along
      (completion dependencies (WasHead dependencies w ls)).discipline.ok (.initial w) ls := by
    have hheads : (server dependencies).Along (fun c l => ∀ d, (server dependencies).step c l =
        some d → ∀ b s, HeadIs d.state b s → WasHead dependencies w ls b s) (.initial w) ls :=
      Machine.along_of_prefixes fun ms d hms hplay b s hhead => ⟨ms, d, hms, hplay, hhead⟩
    exact hheads.mono fun c l hok => ⟨trivial, hok⟩
  have hinitial : CompletedShown (WasHead dependencies w ls) w := by
    intro r hr
    simp [World.status?, World.run?, findById, hw.runs] at hr
  have hstart : (completion dependencies (WasHead dependencies w ls)).discipline.Holds (.initial w) :=
    Discipline.holds_initial ⟨lawful_initial hw, hinitial⟩
  have hholds := Discipline.holds_play hstart halong h
  exact hholds.1.2 r hcompleted

theorem first_run_was_head : ∃ c,
    (server sampleDependencies).play (.initial sampleWorld) firstRun = some c ∧
    Shown (WasHead sampleDependencies sampleWorld firstRun) c.state 11 := by
  have hc : ((server sampleDependencies).play (.initial sampleWorld) firstRun).any
      (fun c => c.state.status? 11 == some .completed) = true := by decide +kernel
  obtain ⟨c, h, hs⟩ := (Option.any_eq_true ..).mp hc
  exact ⟨c, h, completed_was_head sampleWorld_initial h (beq_iff_eq.mp hs)⟩

end Runs

end AppBuilder.Server
