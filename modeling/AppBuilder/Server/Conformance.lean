import AppBuilder.Async.Extension
import AppBuilder.Server.ProcessWalk

/-! Every call of the server keeps to the protocol. -/
namespace AppBuilder.Server
open Agent Async Store Branches Routes

variable (dependencies : AgentJobProcessorDependencies) {φ : Phase}

section Deliveries

variable {job : AgentRunJob} {execution : GuardHandle}

private theorem delayJob_tracks (hr : φ.call.run? = some job.runId) (hi : φ.Idle) :
    Processes (delayJob dependencies job) φ := by
  refine (Protocol.tracks_bind ..).mpr (step_tracks (.updateRun hr .wait) (fun n _ => ?_)
    fun _ _ => φ.fail_clean)
  refine (Inert.quiet hi.clean rfl).andThen (fun now => ?_) fun _ _ => hi.clean
  exact (Inert.quiet hi.clean rfl).andThen (fun _ => hi.clean) fun _ _ => hi.clean

/-- Whether a worker goes on with its run, or has found that the run has ended. -/
def Prepared (execution : GuardHandle) (runId : ObjectId) (ready : Bool) (φ : Phase) : Prop :=
  Ready (some execution) runId φ ∧ (ready = false → Ended φ)

private theorem rebaseRun_tracks (h : Ready (some execution) job.runId φ) :
    protocol.Tracks (rebaseRun job.runId execution) φ
      (Prepared execution job.runId) (fun _ ψ => ψ.Clean) := by
  have hthrow : ∀ ψ : Phase, ψ.Clean → protocol.Tracks (do
      release execution
      .throw (branchNotFoundError job.runId) : Promise Bool) ψ (Prepared execution job.runId)
      (fun _ ψ => ψ.Clean) := fun ψ hψ =>
    (Protocol.tracks_bind ..).mpr ((release_tracks execution).mono
      (fun _ _ hχ => hχ ▸ hψ) fun _ _ he => he.2 ▸ Phase.fail_clean _)
  refine step_tracks (.findRun _ h.call) (fun waitingRun _ => ?_) fun _ _ => φ.fail_clean
  show protocol.Tracks _ { φ with run := waitingRun.map refOf } _ _
  cases hb : waitingRun.bind (·.branchId) with
  | none => exact hthrow _ h.idle.clean
  | some branchId =>
    obtain ⟨run, rfl, hbranch⟩ := Option.bind_eq_some_iff.mp hb
    refine step_tracks (.findRunBranch _ rfl hbranch (by simp))
      (fun branch hfound => ?_) fun _ _ => Phase.fail_clean _
    cases branch with
    | none => exact hthrow _ h.idle.clean
    | some branch =>
      have hid : branch._id = branchId := answered_findBranch hfound
      refine step_tracks (.updateRun h.call (.rebase rfl rfl (hid ▸ hbranch))) (fun n _ => ?_)
        fun _ _ => Phase.fail_clean _
      by_cases hn : n = 1
      · subst hn
        exact step_tracks (.quiet rfl) (fun _ _ => ⟨⟨h.call, h.guard, h.idle⟩, by simp⟩)
          fun _ _ => Phase.fail_clean _
      · have hnext : ∀ ψ : Phase, ψ.next (.updateRun job.runId (.equals .waitingForCapacity)
            (rebasePatch branch)) (.ok n) = { ψ with settled := true } := fun ψ =>
          if_neg (by simp [hn, rebasePatch])
        rw [hnext]
        simp only [if_neg hn]
        refine (Protocol.tracks_bind ..).mpr ((release_tracks execution).mono
          (fun _ ψ hψ => ?_) fun _ _ he => he.2 ▸ Phase.fail_clean _)
        subst hψ
        exact ⟨⟨h.call, h.guard, h.idle⟩, fun _ => ⟨h.idle.clean, .inl rfl⟩⟩

private theorem prepareRun_tracks (h : Ready (some execution) job.runId φ)
    (initialStatus : AgentRunStatus) :
    protocol.Tracks (prepareRun job initialStatus execution) φ
      (Prepared execution job.runId) (fun _ ψ => ψ.Clean) := by
  unfold prepareRun
  split
  · split
    · exact rebaseRun_tracks h
    · refine step_tracks (.updateRun h.call .requeue) (fun n _ => ?_) fun _ _ => φ.fail_clean
      have hnext : φ.next (.updateRun job.runId (.equals .waitingForCapacity)
          { status := some .queued }) (.ok n) = φ := if_pos (.inr rfl)
      rw [hnext]
      exact ⟨h, by simp⟩
  · exact ⟨h, by simp⟩

private theorem selectModelClient_inert (h : Ready (some execution) job.runId φ)
    (initialStatus : AgentRunStatus) :
    protocol.Tracks (selectModelClient dependencies job.runId initialStatus) φ
      (fun _ ψ => ψ = φ) (fun _ _ => False) := by
  unfold selectModelClient
  split
  · split
    · exact rfl
    · refine (Protocol.tracks_bind ..).mpr ((Protocol.tracks_attempt ..).mpr ?_)
      exact last_tracks (.findRun _ h.call) (fun _ _ => rfl) fun _ _ => h.idle.fail
  · exact rfl

private theorem processJob_tracks (h : Ready (some execution) job.runId φ)
    (initialStatus : AgentRunStatus) :
    Processes (processJob dependencies job initialStatus execution) φ := by
  unfold processJob
  split
  · exact processValidationCandidate_tracks h _
  · refine (Protocol.tracks_bind ..).mpr ((selectModelClient_inert dependencies h _).mono ?_
      fun _ _ he => he.elim)
    rintro modelClient ψ rfl
    exact processAgentRun_tracks h _ _ _

private theorem executeJob_tracks (h : Ready (some execution) job.runId φ)
    (initialStatus : AgentRunStatus) :
    Processes (executeJob dependencies job initialStatus execution) φ := by
  refine (Protocol.tracks_bind ..).mpr ((prepareRun_tracks h initialStatus).mono ?_
    fun _ _ he => he)
  rintro ready ψ ⟨hready, hended⟩
  cases ready with
  | false => exact hended rfl
  | true =>
    refine (Protocol.tracks_tryFinally ..).mpr ((processJob_tracks dependencies hready _).mono ?_ ?_)
    · exact fun _ χ hχ => (release_tracks execution).mono (fun _ _ he => he ▸ hχ)
        fun _ _ he => he.2 ▸ Phase.fail_clean _
    · exact fun _ χ hχ => (release_tracks execution).mono (fun _ _ he => he ▸ hχ)
        fun _ _ he => he.2 ▸ Phase.fail_clean _

theorem createAgentJobProcessor_tracks (hr : φ.call.run? = some job.runId) (hi : φ.Idle) :
    Processes (createAgentJobProcessor dependencies job) φ := by
  have hdeliver : Processes (deliverJob dependencies job) φ := by
    refine step_tracks (.findRunStatus hr) (fun status _ => ?_) fun _ _ => φ.fail_clean
    have hi' : Phase.Idle (φ.onStatus status) := hi
    cases status with
    | none => exact ⟨hi'.clean, .inl (by simp [Phase.onStatus])⟩
    | some status =>
      show Processes (ite _ _ _) (φ.onStatus (some status))
      split
      · exact ⟨hi'.clean, .inl (by simp [Phase.onStatus, *])⟩
      · refine (Protocol.tracks_bind ..).mpr ((acquire_tracks (φ := φ.onStatus (some status)) hr
          hi').mono ?_ fun _ _ he => he.2 ▸ hi'.clean)
        rintro execution ψ rfl
        cases execution with
        | none => exact delayJob_tracks dependencies hr hi
        | some execution =>
          have hready : Ready (some execution) job.runId
              { φ.onStatus (some status) with guard := some execution } := ⟨hr, rfl, hi⟩
          exact executeJob_tracks dependencies hready status
  unfold createAgentJobProcessor
  split
  · exact hi.clean
  · exact hdeliver

end Deliveries

section Requests

private theorem findOwnedWorkspaceProject_tracks (hi : φ.Idle) (projectId userId : ObjectId) :
    protocol.Tracks (findOwnedWorkspaceProject projectId userId) φ
      (fun project ψ => ∃ found, ψ = { φ with project := found } ∧
        ∀ p, project = some p → found = some p ∧ p._id = projectId ∧ p.userId = userId)
      (fun _ ψ => ψ.Clean ∧ ψ.refused = φ.refused) := by
  refine step_tracks (.findOwnedProject _ _ hi.2) (fun found hfound => ?_)
    fun _ _ => ⟨φ.fail_clean, rfl⟩
  have hi' : Phase.Idle { φ with project := found } := hi
  cases found with
  | none => exact ⟨none, rfl, fun p hp => by cases hp⟩
  | some project =>
    obtain ⟨hid, huser⟩ := answered_findOwnedProject hfound
    cases hw : project.workspaceId with
    | none =>
      simp only [Option.bind_some, hw, Option.map_none]
      exact ⟨_, rfl, fun p hp => by cases hp⟩
    | some workspaceId =>
      simp only [Option.bind_some, hw, Option.map_some]
      refine (Inert.quiet hi'.clean rfl).andThen (fun membership => ?_) fun _ _ => ⟨hi'.clean, rfl⟩
      refine ⟨_, rfl, fun p hp => ?_⟩
      cases membership with
      | false => cases hp
      | true =>
        cases Option.some.inj hp
        exact ⟨rfl, hid, huser⟩

private theorem resolveProjectBranch_tracks {project : Project} (hp : φ.project = some project)
    (hi : φ.Idle) (branchId : Option ObjectId) :
    protocol.Tracks (resolveProjectBranch project branchId) φ
      (fun branch ψ => ψ = { φ with branch })
      (fun _ ψ => ψ.Clean ∧ ψ.refused = φ.refused) := by
  cases branchId with
  | some id =>
    exact last_tracks (.findActiveBranch id hp hi.2) (fun _ _ => rfl)
      fun _ _ => ⟨φ.fail_clean, rfl⟩
  | none =>
    refine (Protocol.tracks_bind ..).mpr ?_
    unfold ensureMainBranch
    split
    · exact ⟨hi.clean, rfl⟩
    · exact last_tracks (.upsertMainBranch hp hi.2 rfl rfl rfl rfl) (fun _ _ => rfl)
        fun _ _ => ⟨φ.fail_clean, rfl⟩

/-- A route that leaves nothing undone. -/
def Responds (p : Promise HttpResponse) (φ : Phase) : Prop :=
  protocol.Tracks p φ (fun _ ψ => ψ.Clean) (fun _ ψ => ψ.Clean)

private theorem announce_tracks {job : AgentRunJob} {input : EmitAgentEventInput}
    {response : HttpResponse} (hi : φ.Idle) (hc : φ.created = some job.runId)
    (hinput : input.type.isTerminal = false) :
    Responds (do
      let _ ← emitAgentEvent input
      perform (.enqueue job)
      return response) φ := by
  refine (Protocol.tracks_bind ..).mpr ((emit_tracks hinput).mono ?_
    fun _ _ he => he.2 ▸ φ.fail_clean)
  rintro - ψ rfl
  exact step_tracks (.enqueue hc) (fun _ _ => hi.clean) fun _ _ => Phase.fail_clean _

private theorem createRunOn_tracks {req : CreateRunRequest} {project : Project}
    {chat : Option Chat} {branch : ProjectBranch} (hi : φ.Idle) (hp : φ.project = some project)
    (hb : φ.branch = some branch) (hid : project._id = req.projectId)
    (huser : project.userId = req.userId) : Responds (createRunOn req project chat branch) φ := by
  refine (Inert.awaitSome fun _ => .perform hi.clean (.findSnapshot rfl) fun _ => rfl).andThen
    (fun baseSnapshot => ?_) fun _ _ => hi.clean
  show Responds (ite _ _ _) φ
  split
  · exact hi.clean
  · split
    · exact hi.clean
    · refine step_tracks (.createRun hp hb rfl rfl rfl hid.symm huser.symm) (fun run _ => ?_)
        fun _ _ => φ.fail_clean
      have hi' : Phase.Idle { φ with created := some run._id } := hi
      refine Inert.andThen (φ := { φ with created := some run._id }) ?_ (fun _ => ?_)
        fun _ _ => hi'.clean
      · unfold saveMessage
        split
        · exact .quiet hi'.clean rfl
        · exact rfl
      · exact announce_tracks hi' rfl (by exact rfl)

private theorem createRun_tracks (req : CreateRunRequest) (hi : φ.Idle) :
    Responds (Routes.createRun req) φ := by
  refine (Protocol.tracks_bind ..).mpr ((findOwnedWorkspaceProject_tracks hi _ _).mono ?_
    fun _ _ he => he.1)
  rintro project ψ ⟨found, rfl, hproject⟩
  have hi : Phase.Idle { φ with project := found } := hi
  cases project with
  | none => exact hi.clean
  | some project =>
    obtain ⟨rfl, hid, huser⟩ := hproject project rfl
    refine (Inert.awaitSome fun _ => .quiet hi.clean rfl).andThen (fun chat => ?_) fun _ _ => hi.clean
    show Responds (ite _ _ _) _
    split
    · exact hi.clean
    · refine (Protocol.tracks_bind ..).mpr ((resolveProjectBranch_tracks rfl hi _).mono ?_
        fun _ _ he => he.1)
      rintro branch ψ rfl
      have hi : Phase.Idle { φ with project := some project, branch } := hi
      cases branch with
      | none => exact hi.clean
      | some branch =>
        show Responds (ite _ _ _) _
        split
        · exact createRunOn_tracks hi rfl rfl hid huser
        · exact hi.clean

private theorem startRetry_tracks {source : AgentRun} {userId : ObjectId}
    {candidate : ValidationCandidate} (hi : φ.Idle) (hrun : φ.run = some (refOf source))
    (huser : source.userId = userId) : Responds (startRetry source userId candidate) φ := by
  have hpermit : Permit φ (.createRun (retryOf source userId candidate)) :=
    .retryRun hrun rfl (by rw [← huser]; rfl)
  refine (Protocol.tracks_bind ..).mpr ((Protocol.tracks_attempt ..).mpr
    (last_tracks hpermit (fun run _ => ?_) fun e _ => ?_))
  · exact announce_tracks (φ := { φ with created := some run._id }) hi rfl (by exact rfl)
  · show Responds (ite _ _ _) φ.fail
    rw [hi.fail]
    split
    · refine (Inert.quiet hi.clean rfl).andThen (fun concurrent => ?_) fun _ _ => hi.clean
      cases concurrent <;> exact hi.clean
    · exact hi.clean

private theorem retryValidation_tracks (req : RunRequest) (hi : φ.Idle)
    (hr : φ.call.run? = none) : Responds (Routes.retryValidation req) φ := by
  refine step_tracks (.findRetryableRun _ _ hr) (fun source hsource => ?_) fun _ _ => φ.fail_clean
  have hi : Phase.Idle { φ with run := source.map refOf } := hi
  cases source with
  | none => exact hi.clean
  | some source =>
    have huser := answered_findRetryableRun hsource
    cases hc : source.validationCandidateId with
    | none =>
      simp only [Option.bind_some, hc, Option.map_none]
      exact hi.clean
    | some validationCandidateId =>
      simp only [Option.bind_some, hc, Option.map_some]
      refine (Protocol.tracks_bind ..).mpr ((findOwnedWorkspaceProject_tracks hi _ _).mono ?_
        fun _ _ he => he.1)
      rintro project ψ ⟨found, rfl, -⟩
      have hi : Phase.Idle { φ with run := some (refOf source), project := found } := hi
      show Responds (ite _ _ _) _
      split
      · exact hi.clean
      · refine (Inert.quiet hi.clean rfl).andThen (fun now => ?_) fun _ _ => hi.clean
        refine (Inert.quiet hi.clean rfl).andThen (fun candidate => ?_) fun _ _ => hi.clean
        cases candidate with
        | none => exact hi.clean
        | some candidate =>
          refine (Inert.quiet hi.clean rfl).andThen (fun existing => ?_) fun _ _ => hi.clean
          cases existing with
          | some existing => exact hi.clean
          | none => exact startRetry_tracks hi rfl huser

private theorem cancelActiveRun_tracks {req : RunRequest} (hi : φ.Idle)
    (hr : φ.call.run? = some req.runId) : Responds (cancelActiveRun req) φ := by
  refine step_tracks (.cancelRun _ hr) (fun cancelled _ => ?_) fun _ _ => φ.fail_clean
  cases cancelled with
  | none =>
    refine (Inert.quiet hi.clean rfl).andThen (fun run => ?_) fun _ _ => hi.clean
    show Responds (ite _ _ _) _
    split <;> exact hi.clean
  | some run =>
    refine (Protocol.tracks_bind ..).mpr ((finalEvent_tracks
      (φ := { φ with repeats := some .runCancelled }) hr rfl (.inr rfl)).mono (fun _ ψ hψ => ?_)
      fun e ψ he => ?_)
    · exact hψ ▸ ⟨.inl rfl, .inl hi.2⟩
    · exact he.elim (·.2 ▸ Phase.fail_clean _) (·.2 ▸ Phase.fail_clean _)

private theorem cancelRun_tracks {req : RunRequest} (hi : φ.Idle)
    (hr : φ.call.run? = some req.runId) : Responds (Routes.cancelRun req) φ := by
  refine (Inert.quiet hi.clean rfl).andThen (fun run => ?_) fun _ _ => hi.clean
  cases run with
  | none => exact hi.clean
  | some run =>
    refine (Protocol.tracks_bind ..).mpr ((findOwnedWorkspaceProject_tracks hi _ _).mono ?_
      fun _ _ he => he.1)
    rintro project ψ ⟨found, rfl, -⟩
    have hi : Phase.Idle { φ with project := found } := hi
    show Responds (ite _ _ _) _
    split
    · exact hi.clean
    · show Responds (ite _ _ _) _
      split
      · exact hi.clean
      · show Responds (ite _ _ _) _
        split
        · exact hi.clean
        · exact cancelActiveRun_tracks hi hr

/-- How a rollback answers: `409` exactly when the head had changed. -/
def Rolled (response : HttpResponse) (φ : Phase) : Prop :=
  φ.Clean ∧ (φ.refused = true ↔ response.status = 409)

private theorem rollbackTo_tracks {req : RollbackRequest} {project : Project}
    {branch : ProjectBranch} {snapshot : ProjectSnapshot} (hcall : φ.call = .rollback req)
    (hi : φ.Idle) (hp : φ.project = some project) (hb : φ.branch = some branch)
    (href : φ.refused = false) :
    protocol.Tracks (rollbackTo project branch snapshot) φ Rolled
      (fun _ ψ => ψ.Clean ∧ ψ.refused = false) := by
  refine (Inert.quiet hi.clean rfl).andThen (fun bundle => ?_) fun _ _ => ⟨hi.clean, href⟩
  refine step_tracks (.rollback hcall hb rfl rfl hi.2) (fun updated _ => ?_)
    fun _ _ => ⟨φ.fail_clean, href⟩
  cases updated with
  | none => exact ⟨hi.clean, by simp [Phase.onCommit, errorResponse]⟩
  | some updated =>
    have hmirrors : φ.mirrors = (branch.name == MAIN_BRANCH_NAME) := by
      simp [Phase.mirrors, hcall, hb]
    have hnext : φ.next (.setBranchHead ⟨branch._id, branch.headVersion, snapshot._id⟩)
        (.ok (some updated)) = { φ with
          snapshot := some snapshot._id
          outcome := some .advanced
          mirror := if branch.name == MAIN_BRANCH_NAME then some updated else none } := by
      simp [Phase.onCommit, hmirrors]
    rw [hnext]
    by_cases hname : branch.name = MAIN_BRANCH_NAME
    · simp only [updateRolledBackProject, hname, beq_self_eq_true, if_true]
      refine step_tracks (.advanceActiveSnapshot rfl hp rfl) (fun result _ => ?_)
        fun _ _ => ⟨Phase.fail_clean _, href⟩
      cases result <;> exact ⟨⟨.inl hi.1, .inl rfl⟩, by simp [href, errorResponse]⟩
    · have hb : (branch.name == MAIN_BRANCH_NAME) = false := by simpa using hname
      simp only [updateRolledBackProject, hb, if_neg hname]
      exact ⟨⟨.inl hi.1, .inl rfl⟩, by simp [href]⟩

private theorem rollback_tracks {req : RollbackRequest} (hcall : φ.call = .rollback req)
    (hi : φ.Idle) (href : φ.refused = false) :
    protocol.Tracks (Routes.rollback req) φ Rolled (fun _ ψ => ψ.Clean ∧ ψ.refused = false) := by
  have hnot : ∀ (status : ℕ) (message : String) (ψ : Phase), ψ.Idle → ψ.refused = false →
      status ≠ 409 → Rolled (errorResponse status message) ψ := fun status message ψ hi hr hs =>
    ⟨hi.clean, by simp [hr, errorResponse, hs]⟩
  refine (Protocol.tracks_bind ..).mpr ((findOwnedWorkspaceProject_tracks hi _ _).mono ?_
    fun _ _ he => ⟨he.1, he.2.trans href⟩)
  rintro project ψ ⟨found, rfl, hproject⟩
  have hi : Phase.Idle { φ with project := found } := hi
  cases project with
  | none => exact hnot _ _ _ hi href (by decide)
  | some project =>
    obtain ⟨rfl, -, -⟩ := hproject project rfl
    refine (Protocol.tracks_bind ..).mpr ((resolveProjectBranch_tracks rfl hi _).mono ?_
      fun _ _ he => ⟨he.1, he.2.trans href⟩)
    rintro branch ψ rfl
    have hi : Phase.Idle { φ with project := some project, branch } := hi
    cases branch with
    | none => exact hnot _ _ _ hi href (by decide)
    | some branch =>
      refine (Inert.perform hi.clean (.findSnapshot rfl) fun _ => rfl).andThen
        (fun snapshot => ?_) fun _ _ => ⟨hi.clean, href⟩
      cases snapshot with
      | none => exact hnot _ _ _ hi href (by decide)
      | some snapshot => exact rollbackTo_tracks hcall hi rfl rfl href

end Requests

section Timers

variable {guard : GuardHandle}

private theorem heartbeat_inert (hi : φ.Idle) : Inert (heartbeat guard) φ := by
  refine .bind (.quiet hi.clean rfl) fun begun => ?_
  cases begun with
  | false => exact rfl
  | true =>
    refine .bind (.quiet hi.clean rfl) fun now => .bind (.tryCatch (.bind (.quiet hi.clean rfl)
      fun n => ?_) fun _ _ => .quiet hi.clean rfl) fun _ => .quiet hi.clean rfl
    show Inert (ite _ _ _) φ
    split
    · exact rfl
    · exact .quiet hi.clean rfl

private theorem checkCancellation_tracks (hi : φ.Idle) (hg : φ.guard = some guard)
    (hr : φ.call.run? = some guard.runId) :
    protocol.Tracks (checkCancellation guard) φ (fun _ ψ => ψ.Clean) (fun _ ψ => ψ.Clean) := by
  refine (Inert.quiet hi.clean rfl).andThen (fun active => ?_) fun _ _ => hi.clean
  cases active with
  | false => exact hi.clean
  | true =>
    refine (Protocol.tracks_bind ..).mpr ((Protocol.tracks_attempt ..).mpr
      (last_tracks (.findRunStatus hr) (fun status _ => ?_) fun _ _ => φ.fail_clean))
    have hi' : Phase.Idle (φ.onStatus status) := hi
    cases status with
    | none => exact hi'.clean
    | some status =>
      by_cases hs : status = .cancelled
      · subst hs
        exact last_tracks (.abortGuard hg (by simp [Phase.onStatus]))
          (fun _ _ => hi'.clean) fun _ _ => Phase.fail_clean _
      · cases status <;> first | exact hi'.clean | exact absurd rfl hs

end Timers

/-- What a call knows before its first operation. -/
def Call.start : Call → Phase
  | .heartbeat guard => { call := .heartbeat guard, guard := some guard }
  | .checkCancellation guard => { call := .checkCancellation guard, guard := some guard }
  | call => { call }

def Call.returns : Call → Option HttpResponse → Phase → Prop
  | .deliver _, _, φ => Ended φ
  | .rollback _, response, φ => ∃ r, response = some r ∧ Rolled r φ
  | _, _, φ => φ.Clean

def Call.throws : Call → Phase → Prop
  | .rollback _, φ => φ.Clean ∧ φ.refused = false
  | _, φ => φ.Clean

theorem body_tracks (call : Call) :
    protocol.Tracks (call.body dependencies) call.start call.returns (fun _ => call.throws) := by
  have hi : call.start.Idle := by cases call <;> exact ⟨rfl, rfl⟩
  cases call with
  | deliver job =>
    exact (Protocol.tracks_bind ..).mpr (createAgentJobProcessor_tracks dependencies rfl hi)
  | createRun req => exact (Protocol.tracks_bind ..).mpr (createRun_tracks req hi)
  | retryValidation req => exact (Protocol.tracks_bind ..).mpr (retryValidation_tracks req hi rfl)
  | cancelRun req => exact (Protocol.tracks_bind ..).mpr (cancelRun_tracks hi rfl)
  | rollback req =>
    exact (Protocol.tracks_bind ..).mpr ((rollback_tracks rfl hi rfl).mono
      (fun r _ hr => ⟨r, rfl, hr⟩) fun _ _ he => he)
  | heartbeat guard =>
    exact (Protocol.tracks_bind ..).mpr (Protocol.Tracks.mono (heartbeat_inert hi)
      (fun _ _ hψ => hψ ▸ hi.clean) fun _ _ he => he.2 ▸ hi.clean)
  | checkCancellation guard =>
    exact (Protocol.tracks_bind ..).mpr (checkCancellation_tracks hi rfl rfl)

theorem answers_answered {op : Op} {r : api.Answer op}
    (h : (server dependencies).Answers op r) : op.Answered r := by
  obtain ⟨t, call, w, o, ha, rfl⟩ := h
  cases o with
  | done => exact .inl ⟨t, call.run?, w, rfl⟩
  | refused e => exact .inr ⟨e, rfl, ha⟩
  | unacknowledged e => exact .inr ⟨e, rfl, ha⟩

def serverConformance : Conformance (server dependencies) protocol where
  start := Call.start
  crash φ := { φ with crashed := true }
  returns := Call.returns
  throws call _ := call.throws
  body_tracks := body_tracks dependencies
  possible _ _ := answers_answered dependencies

end AppBuilder.Server
