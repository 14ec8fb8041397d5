import AppBuilder.Server.RunWalk

/-! The two job processors keep to the protocol, with their recovery and failure paths. -/
namespace AppBuilder.Server
open Agent Async Store Branches

variable {execution : Option GuardHandle} {ref : RunRef} {φ : Phase} {run : AgentRun}

/-- A processor ends with nothing left to do for its run, or throws. -/
def Processes (p : Promise Unit) (φ : Phase) : Prop :=
  protocol.Tracks p φ (fun _ ψ => Ended ψ) (fun _ ψ => ψ.Clean)

theorem Stopped.fails {e : AgentError} {runId : ObjectId} (h : Stopped runId e φ) :
    Stopped runId e φ.fail := h.clean.fail.symm ▸ h

section Context

variable (hc : φ.Clean)
include hc

private theorem findSnapshot_inert {q : SnapshotQuery} (h : q.sourceRunId = none) :
    Inert (perform (.findSnapshot q)) φ :=
  .perform hc (.findSnapshot h) fun v => by simp [h]

private theorem readSnapshotBundle_inert (snapshot : Option ProjectSnapshot)
    (workspaceId : ProjectSnapshot → Option ObjectId) (projectId : ProjectSnapshot → ObjectId) :
    Inert (readSnapshotBundle snapshot workspaceId projectId) φ :=
  .awaitSome fun _ => .bind (.quiet hc rfl) fun _ => rfl

private theorem findBaseSnapshot_inert : Inert (findBaseSnapshot run) φ :=
  .awaitSome fun _ => findSnapshot_inert hc rfl

private theorem loadAgentContext_inert (content : ProjectContent) :
    Inert (loadAgentContext content run) φ := by
  refine .bind (.quiet hc rfl) fun project => ?_
  cases project with
  | none => exact ⟨by simp, rfl⟩
  | some project =>
    refine .bind (.awaitSome fun _ => .quiet hc rfl) fun chat => ?_
    show Inert (ite _ _ _) φ
    split
    · exact ⟨by simp, rfl⟩
    · refine .bind (findBaseSnapshot_inert hc) fun baseSnapshot => ?_
      show Inert (ite _ _ _) φ
      split
      · exact ⟨by simp, rfl⟩
      · exact .bind (readSnapshotBundle_inert hc _ _ _) fun _ => rfl

private theorem createRunCandidate_inert (input : FailedCandidate) :
    Inert (createRunCandidate run input) φ := by
  unfold createRunCandidate
  split
  · refine .bind (.quiet hc rfl) fun artifactId => .bind (.quiet hc rfl) fun now => ?_
    refine .bind (.tryCatch (.bind (.quiet hc rfl) fun _ => rfl) fun e he => ?_) fun candidate => ?_
    · split
      · exact .quiet hc rfl
      · exact ⟨he, rfl⟩
    · exact (assertArtifactMatch_tracks hc).mono (fun _ _ h => h.2) fun _ _ he => he
  · exact ⟨by simp [missingOwnershipError], rfl⟩

private theorem storeFailedCandidate_inert (error : AgentError) :
    Inert (storeFailedCandidate run error) φ := by
  unfold storeFailedCandidate
  split
  · split
    · exact .tryCatch (.bind (createRunCandidate_inert hc _) fun _ => rfl) fun _ _ => rfl
    · exact rfl
  · exact rfl

end Context

private theorem appendSummary_tracks (summary : String) (snapshotId : ObjectId) :
    protocol.Tracks (appendSummary run summary snapshotId) φ (fun _ ψ => ψ = φ)
      (fun _ _ => False) := by
  unfold appendSummary
  split
  · exact rfl
  · exact (Protocol.tracks_tryCatch ..).mpr
      (last_tracks (.quiet rfl) (fun _ _ => rfl) fun _ _ => rfl)

private theorem persistGeneration_tracks (h : Working execution ref φ) (hrun : refOf run = ref)
    (parentSnapshotId : Option ObjectId) (generation : ValidatedAgentGenerationResult) :
    protocol.Tracks (persistGeneration run parentSnapshotId generation) φ (fun _ ψ => Ended ψ)
      (Stopped ref.id) := by
  refine (Protocol.tracks_bind ..).mpr ((persist_tracks h hrun).mono ?_ fun _ _ he => he)
  rintro run φ ⟨hrun, h, hp⟩
  have hid : run._id = ref.id := by rw [← hrun]; rfl
  refine (Protocol.tracks_bind ..).mpr ((createRunSnapshot_tracks h hp hrun _).mono ?_
    fun _ _ he => he)
  intro snapshot φ h
  refine (Protocol.tracks_bind ..).mpr ((completeRun_tracks h hrun rfl).mono ?_ fun _ _ he => he)
  intro status φ h
  refine (Protocol.tracks_bind ..).mpr ((appendSummary_tracks _ _).mono ?_ fun _ _ he => he.elim)
  rintro - φ rfl
  refine (Protocol.tracks_tryCatch ..).mpr ((Protocol.tracks_bind ..).mpr ?_)
  exact (completion_tracks h hid rfl).mono (fun _ _ hψ => hψ) fun e ψ he =>
    ⟨he.2.call, he.2.clean, fun hc => by cases hc⟩

private theorem generateRun_tracks (h : Working execution ref φ) (hrun : refOf run = ref)
    (content : ProjectContent) (modelClient : ModelClient) (validator : ProjectValidator) :
    protocol.Tracks (generateRun content run modelClient validator execution) φ
      (fun _ ψ => Ended ψ) (Stopped ref.id) := by
  have hordinary : ∀ φ, Working execution ref φ → ∀ e : AgentError, e.code ≠ .runCancelled →
      Stopped ref.id e φ := fun φ h e he => h.stopped fun hc => absurd hc he
  refine (Inert.quiet h.idle.clean rfl).andThen (fun now => ?_) (hordinary φ h)
  refine (Protocol.tracks_bind ..).mpr
    ((work_tracks h hrun (by decide) (.inl rfl) rfl rfl).mono ?_ fun _ _ he => he.2)
  rintro run φ ⟨hrun, h⟩
  refine (Protocol.tracks_bind ..).mpr ((event_keeps h (by exact rfl)).mono ?_ fun _ _ he => he.2)
  rintro - φ h
  have hc := h.idle.clean
  refine (loadAgentContext_inert hc content).andThen (fun context => ?_) (hordinary φ h)
  refine (findBaseSnapshot_inert hc).andThen (fun baseSnapshot => ?_) (hordinary φ h)
  refine (readSnapshotBundle_inert hc _ _ _).andThen (fun baseBundle => ?_) (hordinary φ h)
  refine (Protocol.tracks_bind ..).mpr (Protocol.Tracks.mono (generationWithValidation_tracks
    (J := fun run φ => refOf run = ref ∧ Working execution ref φ) (X := Stopped ref.id)
    ?_ ?_ onWorkerEvent_tracks ⟨hrun, h⟩) ?_ fun _ _ he => he)
  · exact fun e s φ hs he => hordinary φ hs.2 e he
  · intro guard hg s φ hs
    obtain rfl : execution = some guard := hg
    exact (signal_tracks hs.2).mono (fun _ _ hψ => ⟨hs.1, hψ.1⟩) fun _ _ he => he.2
  · rintro ⟨generation, run⟩ φ ⟨hrun, h⟩
    refine (Protocol.tracks_bind ..).mpr ((assertHeld_tracks h).mono ?_ fun _ _ he => he)
    exact fun _ ψ h => persistGeneration_tracks h hrun _ generation

/-- The final event after a run was stored as failed. -/
private theorem failure_tracks {error : AgentErrorPayload}
    (hcall : φ.call.run? = some run._id) (hm : φ.mirror = none ∨ φ.stale = true)
    (hs : φ.settled = true) (h : φ.owes = some .runFailed ∨ φ.repeats = some .runFailed) :
    Processes (do let _ ← emitAgentEvent (failureEvent run error); return ()) φ := by
  refine (Protocol.tracks_bind ..).mpr ((finalEvent_tracks hcall rfl h).mono (fun _ ψ hψ => ?_)
    fun e ψ he => ?_)
  · subst hψ
    exact ⟨⟨.inl rfl, hm⟩, .inl hs⟩
  · rcases he with he | he
    · exact he.2 ▸ Phase.fail_clean _
    · exact he.2 ▸ Phase.fail_clean _

private theorem failGeneration_tracks {error : AgentError} (h : Stopped ref.id error φ)
    (hrun : refOf run = ref) : Processes (failGeneration run error) φ := by
  have hid : ref.id = run._id := by rw [← hrun]; rfl
  refine (storeFailedCandidate_inert h.clean error).andThen (fun stored => ?_) fun _ _ => h.clean
  refine (Inert.quiet h.clean rfl).andThen (fun now => ?_) fun _ _ => h.clean
  refine step_tracks (.updateRun (hid ▸ h.call) (.failGeneration rfl rfl)) (fun n _ => ?_)
    fun _ _ => φ.fail_clean
  by_cases hn : n = 1
  · subst hn
    exact failure_tracks (hid ▸ h.call) h.clean.2 rfl (.inl rfl)
  · have hnext : ∀ patch, φ.next (.updateRun run._id (.noneOf generationSettledStatuses) patch)
        (.ok n) = { φ with settled := true } := fun patch => by
      simp only [Phase.next_updateRun, Phase.onUpdate, if_neg hn]
      rfl
    have hended : Ended { φ with settled := true } := ⟨h.clean, .inl rfl⟩
    rw [if_neg hn, hnext]
    split
    · exact last_tracks (.quiet rfl) (fun _ _ => hended) fun _ _ => Phase.fail_clean _
    · exact hended

private theorem handleGenerationError_tracks {error : AgentError} (h : Stopped ref.id error φ)
    (hrun : refOf run = ref) : Processes (handleGenerationError run error) φ := by
  unfold handleGenerationError
  split
  · exact ⟨h.clean, .inr (h.cancelled ‹_›)⟩
  · split
    · exact h.clean
    · exact failGeneration_tracks h hrun

private theorem resumePersisting_tracks (h : Working execution ref φ) (hrun : refOf run = ref)
    (hp : φ.persisted = true) : Processes (resumePersisting run) φ := by
  have hid : run._id = ref.id := by rw [← hrun]; rfl
  refine step_tracks (.findRunSnapshot h.call (congrArg some hid)) (fun snapshot _ => ?_)
    fun _ _ => φ.fail_clean
  have hs : Persisting execution ref (snapshot.map (·._id))
      { φ with snapshot := snapshot.map (·._id) } := ⟨⟨h.call, h.run, h.guard, h.idle⟩, hp, rfl⟩
  cases snapshot with
  | none =>
    refine (Inert.quiet hs.idle.clean rfl).andThen (fun now => ?_) fun _ _ => hs.idle.clean
    exact step_tracks (.updateRun (hid ▸ h.call) (.orphan hp rfl rfl))
      (fun n _ => ⟨hs.idle.clean, .inl rfl⟩) fun _ _ => Phase.fail_clean _
  | some snapshot =>
    refine (Protocol.tracks_bind ..).mpr ((completeRun_tracks hs hrun rfl).mono ?_
      fun _ _ he => he.clean)
    intro status ψ hψ
    refine step_tracks (.quiet rfl) (fun manifest _ => ?_) fun _ _ => ψ.fail_clean
    exact (Protocol.tracks_bind ..).mpr ((completion_tracks hψ hid rfl).mono
      (fun _ _ he => he) fun _ _ he => he.2.clean)

private theorem resumeCompleted_tracks (h : Working execution ref φ) (hrun : refOf run = ref)
    (hs : φ.settled = true) : Processes (resumeCompleted run) φ := by
  have hid : run._id = ref.id := by rw [← hrun]; rfl
  have hended : Ended φ := ⟨h.idle.clean, .inl hs⟩
  refine step_tracks (.eventExists _ (hid ▸ h.call) hs) (fun found _ => ?_)
    fun _ _ => φ.fail_clean
  cases found with
  | true => exact hended
  | false =>
    have hc : Phase.Clean { φ with repeats := some .runCompleted } := h.idle.clean
    have hcall : Call.run? (Phase.call { φ with repeats := some .runCompleted }) = some run._id :=
      hid ▸ h.call
    cases run.resultSnapshotId with
    | none => exact ⟨hc, .inl hs⟩
    | some snapshotId =>
      refine (findSnapshot_inert hc rfl).andThen (fun snapshot => ?_) fun _ _ => hc
      refine (Inert.awaitSome fun _ => .quiet hc rfl).andThen (fun manifest => ?_) fun _ _ => hc
      refine (Protocol.tracks_bind ..).mpr ((finalEvent_tracks hcall rfl (.inr rfl)).mono
        (fun _ ψ hψ => ?_) fun e ψ he => ?_)
      · subst hψ
        exact ⟨⟨.inl rfl, hc.2⟩, .inl hs⟩
      · exact he.elim (·.2 ▸ Phase.fail_clean _) (·.2 ▸ Phase.fail_clean _)

/-- A worker that holds the branch and is about to load its run. -/
structure Ready (execution : Option GuardHandle) (runId : ObjectId) (φ : Phase) : Prop where
  call : φ.call.run? = some runId
  guard : φ.guard = execution
  idle : φ.Idle

private theorem Ready.loaded {runId : ObjectId} (h : Ready execution runId φ) (hid : run._id = runId)
    {ψ : Phase} (hcall : ψ.call = φ.call) (hrun : ψ.run = some (refOf run))
    (hguard : ψ.guard = φ.guard) (howes : ψ.owes = φ.owes) (hmirror : ψ.mirror = φ.mirror) :
    Working execution (refOf run) ψ :=
  ⟨by rw [hcall, h.call, ← hid]; rfl, hrun, hguard.trans h.guard, howes.trans h.idle.1,
    hmirror.trans h.idle.2⟩

theorem processAgentRun_tracks {job : AgentRunJob} (h : Ready execution job.runId φ)
    (content : ProjectContent) (modelClient : ModelClient) (validator : ProjectValidator) :
    Processes (processAgentRun content job modelClient validator execution) φ := by
  refine step_tracks (.findRun _ h.call) (fun loaded hloaded => ?_) fun _ _ => φ.fail_clean
  cases loaded with
  | none => exact h.idle.clean
  | some run =>
    have hid : run._id = job.runId := answered_findRun hloaded
    have hw : Working execution (refOf run) (φ.onRun .processAgentRun (some run)) :=
      h.loaded hid rfl rfl rfl rfl rfl
    dsimp only
    split
    · exact resumePersisting_tracks hw rfl (by simp [Phase.onRun, *])
    · exact resumeCompleted_tracks hw rfl (by simp [Phase.onRun, *])
    · exact resumeCompleted_tracks hw rfl (by simp [Phase.onRun, *])
    · exact (Protocol.tracks_tryCatch ..).mpr ((generateRun_tracks hw rfl content modelClient
        validator).mono (fun _ _ hψ => hψ) fun e ψ he => handleGenerationError_tracks he rfl)

private theorem persistCandidate_tracks (h : Working execution ref φ) (hrun : refOf run = ref)
    (candidate : ValidationCandidate) (bundle : ProjectArtifactBundle)
    (validation : ValidationResult) :
    protocol.Tracks (persistCandidate run candidate bundle validation) φ (fun _ ψ => Ended ψ)
      (Stopped ref.id) := by
  refine (Protocol.tracks_bind ..).mpr ((persist_tracks h hrun).mono ?_ fun _ _ he => he)
  rintro run φ ⟨hrun, h, hp⟩
  have hid : run._id = ref.id := by rw [← hrun]; rfl
  refine (Protocol.tracks_bind ..).mpr ((createRunSnapshot_tracks h hp hrun _).mono ?_
    fun _ _ he => he)
  intro snapshot φ h
  refine (Protocol.tracks_bind ..).mpr ((completeRun_tracks h hrun rfl).mono ?_ fun _ _ he => he)
  intro status φ h
  refine step_tracks (.quiet rfl) (fun _ _ => ?_) fun e he =>
    ⟨h.call, φ.fail_clean, fun hc => absurd hc he⟩
  exact (Protocol.tracks_bind ..).mpr ((completion_tracks h hid rfl).mono (fun _ _ hψ => hψ)
    fun _ _ he => he.2)

private theorem validateCandidate_tracks (h : Working execution ref φ) (hrun : refOf run = ref)
    (candidate : ValidationCandidate) (validator : ProjectValidator) :
    protocol.Tracks (validateCandidate run candidate validator execution) φ (fun _ ψ => Ended ψ)
      (Stopped ref.id) := by
  have hordinary : ∀ φ, Working execution ref φ → ∀ e : AgentError, e.code ≠ .runCancelled →
      Stopped ref.id e φ := fun φ h e he => h.stopped fun hc => absurd hc he
  refine (Inert.quiet h.idle.clean rfl).andThen (fun bundle => ?_) (hordinary φ h)
  refine (Inert.quiet h.idle.clean rfl).andThen (fun now => ?_) (hordinary φ h)
  refine (Protocol.tracks_bind ..).mpr
    ((work_tracks h hrun (by decide) (.inl rfl) rfl rfl).mono ?_ fun _ _ he => he.2)
  rintro run φ ⟨hrun, h⟩
  refine (Protocol.tracks_bind ..).mpr ((event_keeps h (by exact rfl)).mono ?_ fun _ _ he => he.2)
  rintro - φ h
  refine (Protocol.tracks_bind ..).mpr
    ((work_tracks h hrun (by decide) (.inr rfl) rfl rfl).mono ?_ fun _ _ he => he.2)
  rintro run φ ⟨hrun, h⟩
  refine (Protocol.tracks_bind ..).mpr (Protocol.Tracks.mono (execute_tracks
    (J := fun (_ : Unit) φ => Working execution ref φ) (X := Stopped ref.id)
    (fun e _ φ hs he => hordinary φ hs e he) ?_ ?_ _ h) ?_ fun _ _ he => he)
  · intro guard hg _ φ hs
    obtain rfl : execution = some guard := hg
    exact (signal_tracks hs).mono (fun _ _ hψ => hψ.1) fun _ _ he => he.2
  · intro _ progress φ _ hs
    exact (Protocol.tracks_bind ..).mpr (event_keeps hs (by exact rfl))
  · rintro ⟨validation, -⟩ φ h
    show protocol.Tracks (ite _ _ _) _ _ _
    split
    · exact h.stopped fun hc => by cases hc
    · show protocol.Tracks (ite _ _ _) _ _ _
      split
      · exact h.stopped fun hc => by unfold candidateValidationError at hc; split at hc <;> cases hc
      · refine (Protocol.tracks_bind ..).mpr ((event_keeps h (by exact rfl)).mono ?_
          fun _ _ he => he.2)
        rintro - φ h
        refine (Protocol.tracks_bind ..).mpr ((assertHeld_tracks h).mono ?_ fun _ _ he => he)
        exact fun _ ψ h => persistCandidate_tracks h hrun candidate _ validation

private theorem retryRun_tracks (h : Working execution ref φ) (hrun : refOf run = ref)
    (validator : ProjectValidator) :
    protocol.Tracks (retryRun run validator execution) φ (fun _ ψ => Ended ψ)
      (Stopped ref.id) := by
  have hordinary : ∀ e : AgentError, e.code ≠ .runCancelled → Stopped ref.id e φ :=
    fun e he => h.stopped fun hc => absurd hc he
  refine (Inert.quiet h.idle.clean rfl).andThen (fun candidate => ?_) hordinary
  cases candidate with
  | none => exact hordinary _ (by simp [candidateUnavailableError])
  | some candidate =>
    refine (Inert.quiet h.idle.clean rfl).andThen (fun now => ?_) hordinary
    show protocol.Tracks (ite _ _ _) _ _ _
    split
    · exact hordinary _ (by simp [candidateExpiredError])
    · exact validateCandidate_tracks h hrun candidate validator

private theorem handleRetryError_tracks {error : AgentError} (h : Stopped ref.id error φ)
    (hrun : refOf run = ref) : Processes (handleRetryError run error) φ := by
  have hid : ref.id = run._id := by rw [← hrun]; rfl
  unfold handleRetryError
  split
  · exact ⟨h.clean, .inr (h.cancelled ‹_›)⟩
  · refine (Inert.quiet h.clean rfl).andThen (fun now => ?_) fun _ _ => h.clean
    refine step_tracks (.updateRun (hid ▸ h.call) (.failRetry rfl rfl)) (fun n _ => ?_)
      fun _ _ => φ.fail_clean
    by_cases hn : n = 1
    · subst hn
      exact failure_tracks (hid ▸ h.call) h.clean.2 rfl (.inl rfl)
    · have hnext : ∀ patch, φ.next (.updateRun run._id (.noneOf retrySettledStatuses) patch)
          (.ok n) = { φ with settled := true, repeats := some .runFailed } := fun patch => by
        simp only [Phase.next_updateRun, Phase.onUpdate, if_neg hn, if_true]
      rw [hnext]
      exact failure_tracks (hid ▸ h.call) h.clean.2 rfl (.inr rfl)

theorem processValidationCandidate_tracks {job : AgentRunJob} (h : Ready execution job.runId φ)
    (validator : ProjectValidator) :
    Processes (processValidationCandidate job validator execution) φ := by
  unfold processValidationCandidate
  split
  · exact h.idle.clean
  · refine step_tracks (.findRun _ h.call) (fun loaded hloaded => ?_) fun _ _ => φ.fail_clean
    cases loaded with
    | none => exact ⟨h.idle.clean, .inl (by simp [Phase.onRun])⟩
    | some run =>
      have hid : run._id = job.runId := answered_findRun hloaded
      have hw : Working execution (refOf run) (φ.onRun .processValidationCandidate (some run)) :=
        h.loaded hid rfl rfl rfl rfl rfl
      show Processes (ite _ _ _) (φ.onRun .processValidationCandidate (some run))
      split
      · show Processes (ite _ _ _) _
        split
        · exact (Protocol.tracks_tryCatch ..).mpr ((retryRun_tracks hw rfl validator).mono
            (fun _ _ hψ => hψ) fun e ψ he => handleRetryError_tracks he rfl)
        · exact hw.idle.clean
      · exact ⟨hw.idle.clean, .inl (by simp [Phase.onRun, *])⟩

end AppBuilder.Server
