import AppBuilder.Server.JobWalk

/-! The steps of a run keep to the protocol: transitions, its events, its snapshot, the commit and
the completion. -/
namespace AppBuilder.Server
open Agent Async Store Branches

variable {execution : Option GuardHandle} {ref : RunRef} {φ : Phase} {run : AgentRun}

/-- The exits of a transition: an error of the update, a refused update that is explained by the
status read afterwards, or that read failing. -/
private theorem transition_tracks {source target : AgentRunStatus} {fields : RunPatch}
    {Q : AgentRun → Phase → Prop} {X : AgentError → Phase → Prop}
    (hcan : canTransitionAgentRun source target = true) (hr : φ.call.run? = some run._id)
    (hu : Update φ run._id (.equals source) { fields with status := some target })
    (hQ : Q ({ fields with status := some target : RunPatch }.apply run)
      (φ.onUpdate (.equals source) { fields with status := some target } 1))
    (hfail : ∀ e : AgentError, e.code ≠ .runCancelled → X e φ.fail)
    (hrefused : ∀ n ≠ 1, ∀ ψ,
      ψ = φ.onUpdate (.equals source) { fields with status := some target } n →
      ψ.call.run? = some run._id ∧ (∀ e : AgentError, e.code ≠ .runCancelled → X e ψ.fail) ∧
      ∀ status e, (e.code = .runCancelled → status = some .cancelled) → X e (ψ.onStatus status)) :
    protocol.Tracks (transitionRun run source target fields) φ Q X := by
  simp only [transitionRun, assertAgentRunTransition, hcan, if_true]
  refine step_tracks (.updateRun hr hu) (fun modifiedCount _ => ?_) hfail
  by_cases hn : modifiedCount = 1
  · subst hn
    exact hQ
  · obtain ⟨hcall, hfail, hstatus⟩ := hrefused modifiedCount hn _ rfl
    simp only [if_neg hn]
    refine step_tracks (.findRunStatus hcall) (fun status _ => ?_) hfail
    show protocol.Tracks (ite _ _ _) _ _ _
    split
    · exact hstatus _ _ fun _ => ‹_›
    · exact hstatus _ _ fun hc => by cases hc

/-- A worker that saw a refused transition is still in its phase, and may know why. -/
private theorem Working.refused (h : Working execution ref φ) :
    φ.call.run? = some ref.id ∧
      (∀ e : AgentError, e.code ≠ .runCancelled →
        Working execution ref φ.fail ∧ Stopped ref.id e φ.fail) ∧
      ∀ status (e : AgentError), (e.code = .runCancelled → status = some .cancelled) →
        Working execution ref (φ.onStatus status) ∧ Stopped ref.id e (φ.onStatus status) := by
  refine ⟨h.call, fun e he => h.failed he, fun status e he => ?_⟩
  refine ⟨h.seen _ _, (h.seen _ _).stopped fun hc => ?_⟩
  simp [he hc]

theorem work_tracks {source target : AgentRunStatus} {fields : RunPatch}
    (h : Working execution ref φ) (hrun : refOf run = ref)
    (hcan : canTransitionAgentRun source target = true)
    (hs : source = .queued ∨ source.isWorking = true) (ht : target.isWorking = true)
    (hbase : fields.baseHeadVersion = none) :
    protocol.Tracks (transitionRun run source target fields) φ
      (fun run' ψ => refOf run' = ref ∧ Working execution ref ψ)
      (fun e ψ => Working execution ref ψ ∧ Stopped ref.id e ψ) := by
  have hid : ref.id = run._id := by rw [← hrun]; rfl
  have hsame : ∀ n, φ.onUpdate (.equals source) { fields with status := some target } n = φ :=
    φ.onUpdate_work hs ht rfl
  refine transition_tracks hcan (hid ▸ h.call) (.work hs ht rfl hbase) ?_ h.refused.2.1
    fun n _ ψ hψ => ?_
  · rw [hsame]
    refine ⟨?_, h⟩
    rw [← hrun]
    simp [refOf, hbase]
  · rw [hψ.trans (hsame n), ← hid]
    exact h.refused

theorem persist_tracks (h : Working execution ref φ) (hrun : refOf run = ref) :
    protocol.Tracks (transitionRun run .validating .persisting) φ
      (fun run' ψ => refOf run' = ref ∧ Working execution ref ψ ∧ ψ.persisted = true)
      (Stopped ref.id) := by
  have hid : ref.id = run._id := by rw [← hrun]; rfl
  have hfail : ∀ e : AgentError, e.code ≠ .runCancelled → Stopped ref.id e φ.fail :=
    fun _ he => (h.failed he).2
  refine transition_tracks (by decide) (hid ▸ h.call) .persist ?_ hfail fun n hn ψ hψ => ?_
  · exact ⟨hrun, ⟨h.call, h.run, h.guard, h.idle⟩, rfl⟩
  · rw [hψ.trans (if_neg hn), ← hid]
    exact ⟨h.call, hfail, fun status e he => (h.refused.2.2 status e he).2⟩

theorem event_keeps (h : Working execution ref φ) {input : EmitAgentEventInput}
    (hi : input.type.isTerminal = false) :
    protocol.Tracks (emitAgentEvent input) φ (fun _ ψ => Working execution ref ψ)
      (fun e ψ => Working execution ref ψ ∧ Stopped ref.id e ψ) :=
  (emit_tracks hi).mono (fun _ _ hψ => hψ ▸ h) fun _ _ he => he.2 ▸ h.failed he.1

theorem onWorkerEvent_tracks :
    CallbackKeeps protocol onWorkerEvent WorkerEvent.Inner
      (fun run φ => refOf run = ref ∧ Working execution ref φ) (Stopped ref.id) := by
  intro run event φ hinner ⟨hrun, h⟩
  refine (Protocol.tracks_bind ..).mpr ?_
  have htransition : protocol.Tracks (transitionOnEvent run event.payload) φ
      (fun run' ψ => refOf run' = ref ∧ Working execution ref ψ)
      (fun e ψ => Working execution ref ψ ∧ Stopped ref.id e ψ) := by
    unfold transitionOnEvent
    split
    · exact work_tracks h hrun (by decide) (.inr rfl) rfl rfl
    · split_ifs
      · exact work_tracks h hrun (by decide) (.inr rfl) rfl rfl
      · exact work_tracks h hrun (by decide) (.inr rfl) rfl rfl
    · exact work_tracks h hrun (by decide) (.inr rfl) rfl rfl
    · exact work_tracks h hrun (by decide) (.inr rfl) rfl rfl
    · exact ⟨hrun, h⟩
  refine htransition.mono (fun run' ψ hψ => ?_) fun e ψ he => ⟨⟨hrun, he.1⟩, he.2⟩
  refine (Protocol.tracks_bind ..).mpr ((event_keeps hψ.2 (by exact hinner)).mono
    (fun _ χ hχ => ⟨hψ.1, hχ⟩) fun e χ he => ⟨⟨hrun, he.1⟩, he.2⟩)

/-- The snapshot of a run that is being persisted. -/
structure Persisting (execution : Option GuardHandle) (ref : RunRef) (snapshot : Option ObjectId)
    (φ : Phase) : Prop extends Working execution ref φ where
  persisted : φ.persisted = true
  snapshot : φ.snapshot = snapshot

private theorem upsertRunSnapshot_tracks (h : Working execution ref φ) (hp : φ.persisted = true)
    {fields : ProjectSnapshot} (hs : fields.sourceRunId = ref.id) :
    protocol.Tracks (upsertRunSnapshot fields) φ
      (fun s ψ => Persisting execution ref (s.map (·._id)) ψ) (Stopped ref.id) := by
  have hQ : ∀ s : Option ObjectId, Persisting execution ref s { φ with snapshot := s } :=
    fun s => ⟨⟨h.call, h.run, h.guard, h.idle⟩, hp, rfl⟩
  refine (Protocol.tracks_tryCatch ..).mpr ?_
  refine step_tracks (.upsertSnapshot (hs ▸ h.call) hp) (fun s _ => hQ (some s._id))
    fun e he => ?_
  have hfail : φ.fail = φ := h.idle.fail
  show protocol.Tracks (ite _ _ _) φ.fail _ _
  rw [hfail]
  split
  · exact last_tracks (.findRunSnapshot h.call (congrArg some hs)) (fun s _ => hQ (s.map (·._id)))
      fun e he => (h.failed he).2
  · exact h.stopped fun hc => absurd hc he

theorem assertArtifactMatch_tracks {α : Type} (hi : φ.Clean)
    {owned : α → ObjectId × ArtifactScope} {record : Option α} {artifactId : ObjectId}
    {scope : ArtifactScope} {kind : ArtifactKind} :
    protocol.Tracks (assertArtifactMatch owned record artifactId scope kind) φ
      (fun r ψ => record = some r ∧ ψ = φ) (fun e ψ => e.code ≠ .runCancelled ∧ ψ = φ) := by
  unfold assertArtifactMatch
  split
  · exact ⟨by simp [artifactConflict], rfl⟩
  · split
    · refine (Inert.quiet hi rfl).andThen (fun manifest => ?_) fun e he => ⟨he, rfl⟩
      split
      · exact ⟨rfl, rfl⟩
      · exact ⟨by simp [artifactConflict], rfl⟩
    · exact ⟨by simp [artifactConflict], rfl⟩

private theorem assertPreviewMatch_tracks (hi : φ.Clean) {workspaceId : ObjectId}
    {validation : ValidationResult} {owned : ProjectSnapshot} :
    protocol.Tracks (assertPreviewMatch run workspaceId validation owned) φ
      (fun s ψ => s = owned ∧ ψ = φ) (fun e ψ => e.code ≠ .runCancelled ∧ ψ = φ) := by
  unfold assertPreviewMatch
  split
  · exact ⟨rfl, rfl⟩
  · refine (Inert.quiet hi rfl).andThen (fun manifest => ?_) fun e he => ⟨he, rfl⟩
    split
    · exact ⟨by simp [artifactConflict], rfl⟩
    · exact ⟨rfl, rfl⟩

theorem createRunSnapshot_tracks (h : Working execution ref φ) (hp : φ.persisted = true)
    (hrun : refOf run = ref) (input : RunSnapshotInput) :
    protocol.Tracks (createRunSnapshot run input) φ
      (fun s ψ => Persisting execution ref (some s._id) ψ) (Stopped ref.id) := by
  have hid : run._id = ref.id := by rw [← hrun]; rfl
  unfold createRunSnapshot
  split
  · refine (Inert.quiet h.idle.clean rfl).andThen (fun artifactId => ?_) fun e he =>
      h.stopped fun hc => absurd hc he
    refine (Protocol.tracks_bind ..).mpr ((upsertRunSnapshot_tracks h hp hid).mono ?_
      fun _ _ he => he)
    intro snapshot ψ hψ
    have hstop : ∀ (e : AgentError) χ, e.code ≠ .runCancelled ∧ χ = ψ → Stopped ref.id e χ :=
      fun e χ he => he.2 ▸ hψ.stopped fun hc => absurd hc he.1
    refine (Protocol.tracks_bind ..).mpr ((assertArtifactMatch_tracks hψ.idle.clean).mono ?_ hstop)
    rintro owned χ ⟨rfl, rfl⟩
    exact (assertPreviewMatch_tracks hψ.idle.clean).mono (fun s χ hs => hs.1 ▸ hs.2 ▸ hψ) hstop
  · exact h.stopped fun hc => by cases hc

/-- The head of the branch has been decided on. -/
structure Committed (ref : RunRef) (snapshotId : ObjectId) (committed : BranchHeadCommitResult)
    (φ : Phase) : Prop where
  call : φ.call.run? = some ref.id
  run : φ.run = some ref
  persisted : φ.persisted = true
  snapshot : φ.snapshot = some snapshotId
  outcome : φ.outcome = some committed.outcome
  owes : φ.owes = none
  mirror : if committed.outcome = .advanced then
      ∃ branch, φ.mirror = some branch ∧ branch.headVersion = committed.headVersion
    else φ.mirror = none

/-- The final status is stored, and its event is owed. -/
structure Finished (runId : ObjectId) (φ : Phase) : Prop where
  call : φ.call.run? = some runId
  owes : φ.owes = some .runCompleted
  mirror : φ.mirror = none
  settled : φ.settled = true

private theorem commit_tracks {snapshotId branchId baseHeadVersion : ObjectId}
    (h : Persisting execution ref (some snapshotId) φ) (hb : ref.branchId = some branchId)
    (hv : ref.baseHeadVersion = some baseHeadVersion) :
    protocol.Tracks (commitBranchHead ⟨branchId, baseHeadVersion, snapshotId⟩) φ
      (fun committed ψ => Committed ref snapshotId committed ψ) (Stopped ref.id) := by
  have hmirrors : φ.mirrors = true := by
    have hcall := h.call
    unfold Phase.mirrors
    split <;> simp_all [Call.run?]
  refine step_tracks (.commit h.call h.persisted h.run hb hv h.snapshot h.idle.2)
    (fun advanced _ => ?_) fun e he => (h.failed he).2
  cases advanced with
  | some branch =>
    exact ⟨h.call, h.run, h.persisted, rfl, rfl, h.idle.1, by
      simp [Phase.onCommit, hmirrors]⟩
  | none =>
    have hi : Phase.Idle { φ with refused := true } := h.idle
    refine step_tracks (.explainCommit h.run hb h.snapshot rfl h.idle.2) (fun current _ => ?_)
      fun e he => ⟨h.call, Phase.fail_clean _, fun hc => absurd hc he⟩
    cases current with
    | none => exact ⟨h.call, hi.clean, fun hc => by cases hc⟩
    | some current =>
      have hs := h.snapshot
      by_cases hhead : current.headSnapshotId = some snapshotId
      · simp only [classifyRefusedCommit, hhead, beq_self_eq_true, if_true]
        exact ⟨h.call, h.run, h.persisted, hs,
          by simp [Phase.onCommit, Phase.onBranch, hhead, hs], h.idle.1, h.idle.2⟩
      · have hb : (current.headSnapshotId == some snapshotId) = false := by simpa using hhead
        simp only [classifyRefusedCommit, hb]
        exact ⟨h.call, h.run, h.persisted, hs,
          by simp [Phase.onCommit, Phase.onBranch, hhead, hs], h.idle.1, h.idle.2⟩

private theorem completedStatus_working (outcome : CommitOutcome) :
    canTransitionAgentRun .persisting (completedStatus outcome) = true ∧
      completedStatus outcome ≠ .failed := by
  cases outcome <;> decide

private theorem updateActiveSnapshot_tracks {branchId snapshotId : ObjectId}
    {branch : ProjectBranch} (hrun : refOf run = ref) (hb : ref.branchId = some branchId)
    (hcall : φ.call.run? = some ref.id) (href : φ.run = some ref)
    (hs : φ.snapshot = some snapshotId) (hm : φ.mirror = some branch)
    (howes : φ.owes = some .runCompleted) (hsettled : φ.settled = true) :
    protocol.Tracks (updateActiveSnapshot run branchId snapshotId branch.headVersion) φ
      (fun _ ψ => Finished ref.id ψ) (Stopped ref.id) := by
  have hfail : ∀ e : AgentError, e.code ≠ .runCancelled → Stopped ref.id e φ.fail := fun e he =>
    ⟨hcall, φ.fail_clean, fun hc => absurd hc he⟩
  refine step_tracks (.findRunBranch _ href hb (by simp)) (fun b _ => ?_) hfail
  by_cases hmain : b.any (·.name == MAIN_BRANCH_NAME) = true
  · have hn : φ.next (.findBranch branchId .completeRunWithSnapshot) (.ok b) = φ := if_pos hmain
    simp only [hn, hmain, if_true]
    have hpermit : Permit φ
        (.setActiveSnapshot run.projectId run.userId snapshotId branch.headVersion) := by
      rw [← hrun] at href
      exact .setActiveSnapshot hm href hs
    exact last_tracks hpermit (fun _ _ => ⟨hcall, howes, rfl, hsettled⟩) hfail
  · have hn : φ.next (.findBranch branchId .completeRunWithSnapshot) (.ok b) =
        { φ with mirror := none } := if_neg hmain
    rw [hn, if_neg hmain]
    exact ⟨hcall, howes, rfl, hsettled⟩

private theorem settle_tracks {branchId snapshotId : ObjectId} {fields : RunPatch}
    {committed : BranchHeadCommitResult} (h : Committed ref snapshotId committed φ)
    (hrun : refOf run = ref) (hb : ref.branchId = some branchId)
    (hfields : fields.baseHeadVersion = none) :
    protocol.Tracks (do
        let now ← perform .now
        let _ ← transitionRun run .persisting (completedStatus committed.outcome)
          { fields with resultSnapshotId := some snapshotId, completedAt := some now }
        if committed.outcome = .advanced then
          updateActiveSnapshot run branchId snapshotId committed.headVersion
        return completedStatus committed.outcome) φ
      (fun _ ψ => Finished ref.id ψ) (Stopped ref.id) := by
  have hid : ref.id = run._id := by rw [← hrun]; rfl
  obtain ⟨hcan, hne⟩ := completedStatus_working committed.outcome
  have hfail : ∀ e : AgentError, e.code ≠ .runCancelled → Stopped ref.id e φ.fail := fun e he =>
    ⟨h.call, φ.fail_clean, fun hc => absurd hc he⟩
  have hupdate : ∀ (patch : RunPatch) n, patch.status = some (completedStatus committed.outcome) →
      φ.onUpdate (.equals .persisting) patch n =
        if n = 1 then { φ with settled := true, owes := some .runCompleted }
        else { φ with stale := φ.stale || φ.mirror.isSome } := by
    intro patch n hp
    simp only [Phase.onUpdate, hp]
    cases committed.outcome <;> rfl
  refine tracks_memory rfl (.quiet rfl) rfl fun now _ => ?_
  show protocol.Tracks (Prog.bind _ _) φ _ _
  refine (Protocol.tracks_bind ..).mpr (transition_tracks hcan (hid ▸ h.call)
    (.complete h.persisted h.outcome rfl hfields) ?_ hfail fun n hn ψ hψ => ?_)
  · rw [hupdate _ 1 rfl, if_pos rfl]
    have hm := h.mirror
    split_ifs at hm with hadv
    · obtain ⟨branch, hbranch, hv⟩ := hm
      simp only [hadv, if_true]
      refine (Protocol.tracks_bind ..).mpr ?_
      rw [← hv]
      exact updateActiveSnapshot_tracks hrun hb h.call h.run h.snapshot hbranch rfl rfl
    · simp only [if_neg hadv]
      exact ⟨h.call, rfl, hm, rfl⟩
  · rw [hupdate _ n rfl, if_neg hn] at hψ
    subst hψ
    have hclean : φ.owes = none ∧ (φ.mirror = none ∨ (φ.stale || φ.mirror.isSome) = true) :=
      ⟨h.owes, by cases φ.mirror <;> simp⟩
    exact ⟨hid ▸ h.call, fun e he => ⟨h.call, Phase.fail_clean _, fun hc => absurd hc he⟩,
      fun status e he => ⟨h.call, ⟨.inl hclean.1, hclean.2⟩,
        fun hc => by simp [Phase.onStatus, he hc]⟩⟩

theorem completeRun_tracks {snapshot : ProjectSnapshot} {fields : RunPatch}
    (h : Persisting execution ref (some snapshot._id) φ) (hrun : refOf run = ref)
    (hfields : fields.baseHeadVersion = none) :
    protocol.Tracks (completeRunWithSnapshot run snapshot fields) φ
      (fun _ ψ => Finished ref.id ψ) (Stopped ref.id) := by
  unfold completeRunWithSnapshot
  split
  · rename_i branchId baseHeadVersion hb hv
    have hb : ref.branchId = some branchId := by rw [← hrun]; exact hb
    have hv : ref.baseHeadVersion = some baseHeadVersion := by rw [← hrun]; exact hv
    refine (Protocol.tracks_bind ..).mpr ((commit_tracks h hb hv).mono (fun committed ψ hψ => ?_)
      fun _ _ he => he)
    exact settle_tracks hψ hrun hb hfields
  · exact h.stopped fun hc => by cases hc

/-- How the processing of a run ends normally. -/
def Ended (φ : Phase) : Prop := φ.Clean ∧ (φ.settled = true ∨ φ.sawCancelled = true)

theorem completion_tracks {runId : ObjectId} (h : Finished runId φ)
    {input : EmitAgentEventInput} (hid : input.runId = runId) (ht : input.type = .runCompleted) :
    protocol.Tracks (emitAgentEvent input) φ (fun _ ψ => Ended ψ)
      (fun e ψ => e.code ≠ .runCancelled ∧ Stopped runId e ψ) := by
  have hpaid : Ended { φ with owes := none } := ⟨⟨.inl rfl, .inl h.mirror⟩, .inl h.settled⟩
  refine (finalEvent_tracks (hid ▸ h.call) (ht ▸ rfl) (.inl (ht ▸ h.owes))).mono
    (fun _ ψ hψ => hψ ▸ hpaid) fun e ψ he => ⟨he.elim (·.1) (·.1), ?_⟩
  exact he.elim (·.stopped h.call) (·.stopped h.call)

end AppBuilder.Server
