import AppBuilder.Agent.GuardWalk

/-! The guard of a job: which executions of the processor release it. -/
namespace AppBuilder.Agent
open Async Store Branches

/-- The guard that an exchange made. -/
def acquired? : Exchange api → Option GuardHandle
  | ⟨.newGuard .., .ok guard⟩ => some guard
  | _ => none

/-- `acquireBranchExecution` returned the guard. -/
def Acquires (guard : GuardHandle) (exchanges : List (Exchange api)) : Prop :=
  ∃ x ∈ exchanges, acquired? x = some guard

/-- `release` begins by stopping the heartbeat. -/
def isRelease (guard : GuardHandle) : Op → Bool
  | .clearHeartbeat guardId => guardId == guard.guardId
  | _ => false

/-- How often the guard was released. -/
def releases (guard : GuardHandle) (exchanges : List (Exchange api)) : ℕ :=
  exchanges.countP fun x => isRelease guard x.op

def isRejected (x : Exchange api) : Bool :=
  match x.answer with
  | .error _ => true
  | .ok _ => false

/-- No operation between the acquisition and the protected block was rejected. -/
def Prepared (exchanges : List (Exchange api)) : Prop :=
  ∀ x ∈ exchanges, isPreparation x.op = true → isRejected x = false

/-- What an execution has done so far to its guard. -/
structure GuardAccount (guard : Option GuardHandle) (released : ℕ) (prepared : Bool)
    (h : History api) : Prop where
  acquires : ∀ g, Acquires g h ↔ guard = some g
  releases : ∀ g, (∀ held, guard = some held → held = g) → releases g h = released
  prepared : Prepared h ↔ prepared = true

namespace GuardAccount

variable {guard : Option GuardHandle} {released : ℕ} {prepared : Bool} {h : History api}

theorem start : GuardAccount none 0 true [] where
  acquires g := by simp [Acquires]
  releases g _ := rfl
  prepared := by simp [Prepared]

theorem of_calm {x : Exchange api} (hx : isCalm x.op = true) (ha : GuardAccount guard released prepared h) :
    GuardAccount guard released prepared (x :: h) where
  acquires g := by
    have hnone : acquired? x = none := by
      obtain ⟨op, answer⟩ := x
      cases op <;> first | rfl | cases hx
    rw [← ha.acquires g]
    simp [Acquires, hnone]
  releases g hg := by
    have hnot : isRelease g x.op = false := by
      obtain ⟨op, answer⟩ := x
      cases op <;> first | rfl | cases hx
    rw [← ha.releases g hg]
    simp [Agent.releases, hnot]
  prepared := by
    have hnot : isPreparation x.op = false := by
      obtain ⟨op, answer⟩ := x
      cases op <;> first | rfl | cases hx | simpa [isCalm] using hx
    rw [← ha.prepared]
    simp [Prepared, hnot]

theorem append_calm {new : History api} (hnew : ∀ x ∈ new, isCalm x.op = true)
    (ha : GuardAccount guard released prepared h) : GuardAccount guard released prepared (new ++ h) := by
  induction new with
  | nil => exact ha
  | cons x new ih =>
    have hrest := ih fun y hy => hnew y (List.mem_cons_of_mem x hy)
    exact of_calm (hnew x List.mem_cons_self) hrest

theorem acquire {leaseId runId branchId : ObjectId} {ttlMs : ℕ} (g : GuardHandle)
    (ha : GuardAccount none released prepared h) :
    GuardAccount (some g) released prepared (⟨.newGuard leaseId runId branchId ttlMs, .ok g⟩ :: h) where
  acquires g' := by
    constructor
    · rintro ⟨x, hx, hacquired⟩
      rcases List.mem_cons.mp hx with rfl | hx
      · exact hacquired
      · exact absurd ((ha.acquires g').mp ⟨x, hx, hacquired⟩) (by simp)
    · rintro hg
      exact ⟨_, List.mem_cons_self, hg⟩
  releases g' hg := by
    rw [← ha.releases g' (by simp)]
    rfl
  prepared := by
    rw [← ha.prepared]
    simp [Prepared, isPreparation]

theorem notAcquired {leaseId runId branchId : ObjectId} {ttlMs : ℕ} (e : AgentError)
    (ha : GuardAccount guard released prepared h) :
    GuardAccount guard released prepared (⟨.newGuard leaseId runId branchId ttlMs, .error e⟩ :: h) where
  acquires g := by
    rw [← ha.acquires g]
    simp [Acquires, acquired?]
  releases g hg := by
    rw [← ha.releases g hg]
    rfl
  prepared := by
    rw [← ha.prepared]
    simp [Prepared, isPreparation]

theorem release {g : GuardHandle} (r : api.Answer (.clearHeartbeat g.guardId))
    (ha : GuardAccount (some g) released prepared h) :
    GuardAccount (some g) (released + 1) prepared (⟨.clearHeartbeat g.guardId, r⟩ :: h) where
  acquires g' := by
    rw [← ha.acquires g']
    simp [Acquires, acquired?]
  releases g' hg := by
    obtain rfl := hg g rfl
    rw [← ha.releases g hg]
    simp [Agent.releases, isRelease]
  prepared := by
    rw [← ha.prepared]
    simp [Prepared, isPreparation]

theorem preparation {op : Op} (hop : isPreparation op = true) (r : api.Answer op)
    (ha : GuardAccount guard released prepared h) :
    GuardAccount guard released (prepared && !isRejected ⟨op, r⟩) (⟨op, r⟩ :: h) where
  acquires g := by
    have hnone : acquired? ⟨op, r⟩ = none := by cases op <;> first | rfl | cases hop
    rw [← ha.acquires g]
    simp [Acquires, hnone]
  releases g hg := by
    have hnot : isRelease g op = false := by cases op <;> first | rfl | cases hop
    rw [← ha.releases g hg]
    simp [Agent.releases, hnot]
  prepared := by
    have hprepared := ha.prepared
    simp only [Prepared, List.forall_mem_cons, hop, true_implies, Bool.and_eq_true,
      Bool.not_eq_true'] at hprepared ⊢
    rw [hprepared, and_comm]

end GuardAccount

section Walk

/-- Any operation may be awaited, and it may be answered in any way. -/
def accounting : Protocol api (History api) :=
  Protocol.ofHistory (fun _ _ => True) fun _ _ => True

variable {guard : Option GuardHandle} {g : GuardHandle} {released : ℕ} {prepared : Bool}
  {h : History api}

theorem calm_tracks {α : Type} {p : Promise α} (hp : Calm p)
    (ha : GuardAccount guard released prepared h) :
    accounting.Tracks p h (fun _ h' => GuardAccount guard released prepared h')
      fun _ h' => GuardAccount guard released prepared h' := by
  refine (Protocol.tracks_awaits hp (fun _ _ _ => trivial) h).mono ?_ ?_
  · rintro a h' ⟨new, rfl, hnew⟩
    exact ha.append_calm hnew
  · rintro e h' ⟨new, rfl, hnew⟩
    exact ha.append_calm hnew

theorem calm_then {α β : Type} {p : Promise α} {f : α → Promise β} (hp : Calm p)
    (ha : GuardAccount guard released prepared h) {Q : β → History api → Prop}
    {X : AgentError → History api → Prop}
    (hf : ∀ a h', GuardAccount guard released prepared h' → accounting.Tracks (f a) h' Q X)
    (hX : ∀ e h', GuardAccount guard released prepared h' → X e h') :
    accounting.Tracks (p.bind f) h Q X :=
  (Protocol.tracks_bind ..).mpr ((calm_tracks hp ha).mono hf hX)

/-- An operation before the protected block. -/
theorem preparation_then {α : Type} {op : Op} {f : op.Reply → Promise α}
    (hop : isPreparation op = true) (ha : GuardAccount guard released true h)
    {Q : α → History api → Prop} {X : AgentError → History api → Prop}
    (hf : ∀ v h', GuardAccount guard released true h' → accounting.Tracks (f v) h' Q X)
    (hX : ∀ e h', GuardAccount guard released false h' → X e h') :
    accounting.Tracks ((perform op).bind f) h Q X :=
  Protocol.tracks_step trivial (fun v _ => hf v _ (ha.preparation hop (.ok v)))
    fun e _ => hX e _ (ha.preparation hop (.error e))

theorem release_tracks (ha : GuardAccount (some g) released prepared h) :
    accounting.Tracks (release g) h (fun _ h' => GuardAccount (some g) (released + 1) prepared h')
      fun _ h' => GuardAccount (some g) (released + 1) prepared h' := by
  have hrest : Calm ((perform (.closeMonitor g.guardId)).bind fun _ =>
      perform (.deleteLease g.leaseId g.runId)) :=
    (calm_perform rfl).bind fun _ => calm_perform rfl
  exact Protocol.tracks_step trivial (fun v _ => calm_tracks hrest (ha.release (.ok v)))
    fun e _ => ha.release (.error e)

theorem calm_upsertBranchLease (fields : BranchExecutionLease) (now : Time) :
    Calm (upsertBranchLease fields now) := by
  refine Prog.Awaits.tryCatch ((calm_perform rfl).bind fun _ => trivial) fun error => ?_
  split_ifs
  · trivial
  · trivial

theorem acquireBranchExecution_tracks (runId : ObjectId) (ttlMs : ℕ) (ha : GuardAccount none 0 true h) :
    accounting.Tracks (acquireBranchExecution runId ttlMs) h
      (fun guard h' => GuardAccount guard 0 true h') fun _ h' => GuardAccount none 0 true h' := by
  refine calm_then (calm_perform rfl) ha (fun run h' ha => ?_) fun _ _ ha => ha
  cases run with
  | none => exact ha
  | some run =>
    dsimp only
    split
    · refine calm_then (calm_perform rfl) ha (fun now h' ha => ?_) fun _ _ ha => ha
      refine calm_then (calm_upsertBranchLease _ now) ha (fun lease h' ha => ?_) fun _ _ ha => ha
      cases lease with
      | none => exact ha
      | some lease =>
        dsimp only
        split_ifs
        · exact Protocol.tracks_step trivial (fun g _ => ha.acquire g) fun e _ => ha.notAcquired e
        · exact ha
    · exact ha

/-- The guard was released once, unless an operation before the protected block was rejected. -/
def Settled (g : GuardHandle) (h : History api) : Prop :=
  GuardAccount (some g) 1 true h ∨ GuardAccount (some g) 0 false h

theorem rebaseRun_tracks (runId : ObjectId) (ha : GuardAccount (some g) 0 true h) :
    accounting.Tracks (rebaseRun runId g) h
      (fun ready h' => GuardAccount (some g) (if ready then 0 else 1) true h')
      fun _ h' => Settled g h' := by
  refine preparation_then rfl ha (fun waitingRun h' ha => ?_) fun _ _ ha => .inr ha
  have hbranch : accounting.Tracks (awaitSome (waitingRun.bind (·.branchId)) fun id =>
      perform (.findBranch id .createAgentJobProcessor)) h'
      (fun _ h' => GuardAccount (some g) 0 true h') fun _ h' => Settled g h' := by
    cases waitingRun.bind (·.branchId) with
    | none => exact ha
    | some id =>
      refine (Protocol.tracks_perform h').mpr ⟨trivial, fun v _ => ?_, fun e _ => .inr ?_⟩
      · exact ha.preparation rfl (.ok v)
      · exact ha.preparation rfl (.error e)
  refine (Protocol.tracks_bind ..).mpr (hbranch.mono (fun branch h' ha => ?_) fun _ _ h => h)
  cases branch with
  | none =>
    refine (Protocol.tracks_bind ..).mpr ((release_tracks ha).mono ?_ fun _ _ ha => .inl ha)
    exact fun _ _ ha => .inl ha
  | some branch =>
    refine preparation_then rfl ha (fun modifiedCount h' ha => ?_) fun _ _ ha => .inr ha
    dsimp only
    split_ifs
    · exact preparation_then rfl ha (fun _ _ ha => ha) fun _ _ ha => .inr ha
    · exact (Protocol.tracks_bind ..).mpr
        ((release_tracks ha).mono (fun _ _ ha => ha) fun _ _ ha => .inl ha)

theorem prepareRun_tracks (job : AgentRunJob) (initialStatus : AgentRunStatus)
    (ha : GuardAccount (some g) 0 true h) :
    accounting.Tracks (prepareRun job initialStatus g) h
      (fun ready h' => GuardAccount (some g) (if ready then 0 else 1) true h')
      fun _ h' => Settled g h' := by
  unfold prepareRun
  split_ifs
  · exact rebaseRun_tracks job.runId ha
  · exact preparation_then rfl ha (fun _ _ ha => ha) fun _ _ ha => .inr ha
  · exact ha

theorem executeJob_tracks (dependencies : AgentJobProcessorDependencies) (job : AgentRunJob)
    (initialStatus : AgentRunStatus) (ha : GuardAccount (some g) 0 true h) :
    accounting.Tracks (executeJob dependencies job initialStatus g) h (fun _ h' => Settled g h')
      fun _ h' => Settled g h' := by
  refine (Protocol.tracks_bind ..).mpr
    ((prepareRun_tracks job initialStatus ha).mono (fun ready h' ha => ?_) fun _ _ h => h)
  cases ready with
  | false => exact .inl ha
  | true =>
    have hrelease : ∀ h', GuardAccount (some g) 0 true h' →
        accounting.Tracks (release g) h' (fun _ h' => Settled g h') fun _ h' => Settled g h' :=
      fun h' ha => (release_tracks ha).mono (fun _ _ ha => .inl ha) fun _ _ ha => .inl ha
    exact (Protocol.tracks_tryFinally ..).mpr
      ((calm_tracks (calm_processJob dependencies job initialStatus g) ha).mono
        (fun _ h' ha => hrelease h' ha) fun _ h' ha => hrelease h' ha)

/-- At the end there is no guard, or the one that there is has been accounted for. -/
def Accounted (h : History api) : Prop := GuardAccount none 0 true h ∨ ∃ g, Settled g h

theorem delayJob_tracks (dependencies : AgentJobProcessorDependencies) (job : AgentRunJob)
    (ha : GuardAccount none 0 true h) :
    accounting.Tracks (delayJob dependencies job) h (fun _ h' => Accounted h')
      fun _ h' => Accounted h' := by
  have hcalm : Calm (delayJob dependencies job) := by
    refine Calm.bind (calm_ignored rfl) fun _ => ?_
    refine (calm_perform rfl).bind fun now => ?_
    exact (calm_perform rfl).bind fun _ => trivial
  exact (calm_tracks hcalm ha).mono (fun _ _ ha => .inl ha) fun _ _ ha => .inl ha

theorem createAgentJobProcessor_tracks (dependencies : AgentJobProcessorDependencies)
    (job : AgentRunJob) :
    accounting.Tracks (createAgentJobProcessor dependencies job) [] (fun _ h' => Accounted h')
      fun _ h' => Accounted h' := by
  have hdeliver : accounting.Tracks (deliverJob dependencies job) [] (fun _ h' => Accounted h')
      fun _ h' => Accounted h' := by
    refine calm_then (calm_perform rfl) .start (fun initialStatus h' ha => ?_) fun _ _ ha => .inl ha
    cases initialStatus with
    | none => exact .inl ha
    | some initialStatus =>
      dsimp only
      split_ifs
      · exact .inl ha
      · refine (Protocol.tracks_bind ..).mpr ((acquireBranchExecution_tracks job.runId _ ha).mono
          (fun execution h' ha => ?_) fun _ _ ha => .inl ha)
        cases execution with
        | none => exact delayJob_tracks dependencies job ha
        | some execution =>
          exact (executeJob_tracks dependencies job initialStatus ha).mono
            (fun _ _ h => .inr ⟨_, h⟩) fun _ _ h => .inr ⟨_, h⟩
  unfold createAgentJobProcessor
  split
  · exact .inl .start
  · exact hdeliver

end Walk

/-- An execution that acquires a guard releases it exactly once if and only if no operation between
the acquisition and the protected block is rejected. -/
theorem released_once_iff (dependencies : AgentJobProcessorDependencies) (job : AgentRunJob)
    {exchanges : List (Exchange api)} {result : Except AgentError Unit} {guard : GuardHandle}
    (hrun : Executes (createAgentJobProcessor dependencies job) exchanges result)
    (hguard : Acquires guard exchanges) :
    releases guard exchanges = 1 ↔ Prepared exchanges := by
  have hend := (createAgentJobProcessor_tracks dependencies job).of_executes hrun
    fun _ _ => trivial
  have haccounted : Accounted exchanges.reverse := by
    rw [List.append_nil] at hend
    cases result with
    | ok a => exact hend
    | error e => exact hend
  have hacquires : Acquires guard exchanges.reverse := by simpa [Acquires] using hguard
  have hreleases : releases guard exchanges.reverse = releases guard exchanges :=
    List.countP_reverse
  have hprepared : Prepared exchanges.reverse ↔ Prepared exchanges := by simp [Prepared]
  rw [← hreleases, ← hprepared]
  rcases haccounted with hnone | ⟨g, hone | hrejected⟩
  · exact absurd ((hnone.acquires guard).mp hacquires) (by simp)
  · have hg := (hone.acquires guard).mp hacquires
    rw [hone.releases guard fun held hheld => by rw [hheld] at hg; exact Option.some.inj hg,
      hone.prepared]
    simp
  · have hg := (hrejected.acquires guard).mp hacquires
    rw [hrejected.releases guard fun held hheld => by rw [hheld] at hg; exact Option.some.inj hg,
      hrejected.prepared]
    simp

section Examples

private def storageError : AgentError := { code := .storage, message := "timeout" }

private def plainContent : ProjectContent where
  buildAgentContext _ _ _ _ := ⟨"", .create, "", [], []⟩
  resolveProjectBaseFiles files := files.getD []
  mergeProjectPackageJson _ _ := ⟨[], [], []⟩
  applyFileOperations files _ _ := .ok files
  stringifyPackageJson _ := ""
  diagnosticFingerprint _ := ""

private def plainDependencies : AgentJobProcessorDependencies where
  content := plainContent
  modelClient := failingModelClient ⟨storageError, by decide⟩
  resolveModelClient := none
  validator := ⟨fun _ => .fail ⟨storageError, by decide⟩⟩
  branchRetryDelayMs := none

private def branchRun : AgentRun where
  _id := 1
  userId := 2
  workspaceId := some 3
  projectId := 4
  branchId := some 5
  chatId := none
  prompt := "Build a counter"
  status := .waitingForCapacity
  mode := .create
  baseSnapshotId := none
  baseSnapshotRevision := 0
  baseHeadVersion := some 0
  resultSnapshotId := none
  retryOfRunId := none
  validationCandidateId := none
  retryable := false
  attempt := 0
  maxRepairAttempts := 2
  error := none
  usage := none
  startedAt := none
  completedAt := none

private def branchLease : BranchExecutionLease := ⟨10, 3, 4, 5, 1, 0, 0, 0, 60000⟩

private def branchGuard : GuardHandle := ⟨11, 10, 1, 5, 60000⟩

/-- The exchanges of a job up to its guard. -/
private def acquisition (status : AgentRunStatus) : List (Exchange api) :=
  [⟨.findRunStatus 1, .ok (some status)⟩,
    ⟨.findRun 1 .acquireBranchExecution, .ok (some branchRun)⟩, ⟨.now, .ok (0 : ℕ)⟩,
    ⟨.upsertLease { branchLease with _id := 0 } 0, .ok branchLease⟩,
    ⟨.newGuard 10 1 5 60000, .ok branchGuard⟩]

/-- A retry without a candidate fails in the protected block. -/
private def released : List (Exchange api) :=
  acquisition .queued ++ [⟨.clearHeartbeat 11, .ok ()⟩, ⟨.closeMonitor 11, .ok ()⟩,
    ⟨.deleteLease 10 1, .ok ()⟩]

/-- The read of the waiting run is rejected. -/
private def leaked : List (Exchange api) :=
  acquisition .waitingForCapacity ++
    [⟨.findRun 1 .createAgentJobProcessor, .error storageError⟩]

private theorem acquisition_acquires (status : AgentRunStatus) (rest : List (Exchange api)) :
    Acquires branchGuard (acquisition status ++ rest) :=
  ⟨⟨.newGuard 10 1 5 60000, .ok branchGuard⟩, by simp [acquisition], rfl⟩

theorem released_once_retry : releases branchGuard released = 1 ↔ Prepared released :=
  released_once_iff plainDependencies ⟨.retryValidation, 1, none⟩
    (.awaited (.awaited (.awaited (.awaited (.awaited (.awaited (.awaited (.awaited
      (.thrown _)))))))))
    (acquisition_acquires _ _)

theorem rejected_read_leaks :
    Executes (createAgentJobProcessor plainDependencies ⟨.agentRun, 1, none⟩) leaked
        (.error storageError) ∧
      Acquires branchGuard leaked ∧ releases branchGuard leaked = 0 :=
  ⟨.awaited (.awaited (.awaited (.awaited (.awaited (.awaited (.thrown _)))))),
    acquisition_acquires _ _, rfl⟩

end Examples

end AppBuilder.Agent
