import AppBuilder.Agent.Types
import Mathlib.Algebra.Order.Ring.Int

/-! The loops of `sandbox/reconcilerLoop.ts`, `sandbox/heartbeatLoop.ts` and
`agent/runCancellation.ts`: an operation that a timer or a caller starts, one at a time, until the
loop is closed. -/
namespace AppBuilder.BackgroundLoops
open Agent

/-- How the promise of an operation settles. Only the cancellation monitor reads a status. -/
inductive Outcome where
  | completed (status : Option AgentRunStatus)
  | failed
  deriving DecidableEq

/-- What distinguishes the loops. Where `observes`, a `then` and a `catch` come between the operation
and the `finally`; with an outcome that `aborts`, the `then` aborts the signal. -/
structure BackgroundLoop where
  intervalMessage : String
  startsAtOnce : Bool
  observes : Bool
  aborts : Outcome → Bool

def startSandboxReconcilerLoop : BackgroundLoop where
  intervalMessage := "Sandbox Reconciler interval must be a positive safe integer"
  startsAtOnce := false
  observes := true
  aborts _ := false

def startSandboxHeartbeatLoop : BackgroundLoop where
  intervalMessage := "Sandbox heartbeat interval must be a positive safe integer"
  startsAtOnce := false
  observes := false
  aborts _ := false

def startRunCancellationMonitor : BackgroundLoop where
  intervalMessage := "Run cancellation interval must be a positive safe integer"
  startsAtOnce := true
  observes := true
  aborts outcome := outcome = .completed (some .cancelled)

/-- Where the task of an operation stands. -/
inductive Stage where
  | running
  | settled (outcome : Outcome)
  | observed
  deriving DecidableEq

inductive Event where
  | started
  | closeCalled
  deriving DecidableEq

/-- The variables of a loop, the tasks that have not finished, the `close` calls that wait for a task
or for nothing, how many have resolved, and the events so far, the newest first. -/
structure Loop where
  closed : Bool
  timer : Bool
  aborted : Bool
  inFlight : Option ℕ
  tasks : List (ℕ × Stage)
  nextTask : ℕ
  closing : List (Option ℕ)
  resolved : ℕ
  log : List Event
  deriving DecidableEq

inductive Label where
  | tick (throws : Bool)
  | trigger (throws : Bool)
  | settle (task : ℕ) (outcome : Outcome)
  | observe (task : ℕ)
  | finish (task : ℕ)
  | close
  | resume (call : ℕ)
  deriving DecidableEq

namespace Loop

def created : Loop := ⟨false, true, false, none, [], 0, [], 0, []⟩

/-- `reconcileNow`, `heartbeatNow` and `checkNow`. An operation that throws before it has a promise
leaves no task. -/
def operate (s : Loop) (throws : Bool) : Loop :=
  if s.closed || s.aborted then s
  else if s.inFlight.isSome then s
  else if throws then { s with log := .started :: s.log }
  else
    { s with
      inFlight := some s.nextTask
      tasks := (s.nextTask, .running) :: s.tasks
      nextTask := s.nextTask + 1
      log := .started :: s.log }

def stage (s : Loop) (task : ℕ) : Option Stage := s.tasks.lookup task

def setStage (s : Loop) (task : ℕ) (stage : Stage) : Loop :=
  { s with tasks := s.tasks.map fun x => if x.1 = task then (task, stage) else x }

/-- The callback of `finally`, after which the promise of the task settles. -/
def finalize (s : Loop) (task : ℕ) : Loop :=
  { s with
    inFlight := if s.inFlight = some task then none else s.inFlight
    tasks := s.tasks.filter (·.1 ≠ task) }

def close (s : Loop) : Loop :=
  if s.closed then { s with resolved := s.resolved + 1, log := .closeCalled :: s.log }
  else
    { s with
      closed := true
      timer := false
      closing := s.closing ++ [s.inFlight]
      log := .closeCalled :: s.log }

/-- Whether the promise that a `close` call awaits has settled. -/
def hasSettled (s : Loop) : Option ℕ → Bool
  | none => true
  | some task => s.tasks.all (·.1 ≠ task)

/-- The operations in flight. -/
def running (s : Loop) : List ℕ := (s.tasks.filter (·.2 = .running)).map (·.1)

end Loop

namespace BackgroundLoop

variable (kind : BackgroundLoop)

def start (intervalMs : ℤ) : Except String Loop :=
  if ¬ intervalMs ≤ 2 ^ 53 - 1 ∨ intervalMs ≤ 0 then .error kind.intervalMessage
  else .ok (if kind.startsAtOnce then Loop.created.operate false else .created)

def step (s : Loop) : Label → Option Loop
  | .tick throws => if s.timer then some (s.operate throws) else none
  | .trigger throws => some (s.operate throws)
  | .settle task outcome =>
    if s.stage task = some .running then some (s.setStage task (.settled outcome)) else none
  | .observe task =>
    match s.stage task with
    | some (.settled outcome) =>
      if kind.observes then
        some { s.setStage task .observed with aborted := s.aborted || kind.aborts outcome }
      else none
    | _ => none
  | .finish task =>
    match s.stage task with
    | some (.settled _) => if kind.observes then none else some (s.finalize task)
    | some .observed => some (s.finalize task)
    | _ => none
  | .close => some s.close
  | .resume call =>
    match s.closing[call]? with
    | some awaited =>
      if s.hasSettled awaited then
        some { s with closing := s.closing.eraseIdx call, resolved := s.resolved + 1 }
      else none
    | none => none

/-- All that a step can do. -/
inductive Changes (s : Loop) : Label → Loop → Prop
  | operates {label : Label} (throws : Bool) (h : label ≠ .close) :
      Changes s label (s.operate throws)
  | settles {task : ℕ} {outcome : Outcome} (h : s.stage task = some .running) :
      Changes s (.settle task outcome) (s.setStage task (.settled outcome))
  | observes {task : ℕ} (aborted : Bool) :
      Changes s (.observe task) { s.setStage task .observed with aborted }
  | finishes {task : ℕ} : Changes s (.finish task) (s.finalize task)
  | closes : Changes s .close s.close
  | resumes {call : ℕ} {awaited : Option ℕ} (hcall : awaited ∈ s.closing)
      (h : s.hasSettled awaited = true) : Changes s (.resume call)
        { s with closing := s.closing.eraseIdx call, resolved := s.resolved + 1 }

theorem step_cases {kind : BackgroundLoop} {s s' : Loop} {label : Label}
    (h : kind.step s label = some s') : Changes s label s' := by
  cases label with
  | tick throws =>
    simp only [step, Option.ite_none_right_eq_some, Option.some.injEq] at h
    exact h.2 ▸ .operates throws (by simp)
  | trigger throws =>
    simp only [step, Option.some.injEq] at h
    exact h ▸ .operates throws (by simp)
  | settle task outcome =>
    simp only [step, Option.ite_none_right_eq_some, Option.some.injEq] at h
    exact h.2 ▸ .settles h.1
  | observe task =>
    rw [step] at h
    split at h
    · simp only [Option.ite_none_right_eq_some, Option.some.injEq] at h
      exact h.2 ▸ .observes _
    · cases h
  | finish task =>
    rw [step] at h
    split at h
    · simp only [Option.ite_none_left_eq_some, Option.some.injEq] at h
      exact h.2 ▸ .finishes
    · simp only [Option.some.injEq] at h
      exact h ▸ .finishes
    · cases h
  | close =>
    simp only [step, Option.some.injEq] at h
    exact h ▸ .closes
  | resume call =>
    rw [step] at h
    split at h
    · next awaited hcall =>
      simp only [Option.ite_none_right_eq_some, Option.some.injEq] at h
      exact h.2 ▸ .resumes (List.mem_of_getElem? hcall) h.1
    · cases h

/-- The steps of a run with the states that they were taken in, the newest first. -/
inductive Run : List (Loop × Label) → Loop → Prop
  | started {intervalMs : ℤ} {s : Loop} (h : kind.start intervalMs = .ok s) : Run [] s
  | stepped {steps : List (Loop × Label)} {s s' : Loop} {label : Label} (hrun : Run steps s)
      (h : kind.step s label = some s') : Run ((s, label) :: steps) s'

end BackgroundLoop

/-- What the loops are for. -/
structure Safe (s : Loop) : Prop where
  noOverlap : s.running.length ≤ 1
  noStart : ∀ after before, s.log = after ++ .closeCalled :: before → Event.started ∉ after
  quiet : 0 < s.resolved → s.running = []

/-- A `close` call of a loop that is closed already, while its last operation is in flight. -/
def IsEarly (s : Loop) (label : Label) : Prop :=
  label = .close ∧ s.closed = true ∧ s.running ≠ []

section Invariant

/-- The task in flight is the only one, and it is what every `close` call waits for. -/
structure Invariant (s : Loop) : Prop where
  single : (s.inFlight = none ∧ s.tasks = []) ∨
    ∃ task stage, s.inFlight = some task ∧ s.tasks = [(task, stage)]
  waits : ∀ awaited ∈ s.closing, ∀ x ∈ s.tasks, awaited = some x.1
  closing : s.closed = false → s.closing = [] ∧ s.resolved = 0 ∧ Event.closeCalled ∉ s.log
  noStart : ∀ after before, s.log = after ++ .closeCalled :: before → Event.started ∉ after

variable {kind : BackgroundLoop} {s s' : Loop} {label : Label}

theorem Invariant.noOverlap (h : Invariant s) : s.running.length ≤ 1 := by
  have htasks : s.tasks.length ≤ 1 := by
    rcases h.single with ⟨-, hnone⟩ | ⟨task, stage, -, hone⟩
    · simp [hnone]
    · simp [hone]
  rw [Loop.running, List.length_map]
  exact (List.length_filter_le _ _).trans htasks

theorem invariant_created : Invariant .created where
  single := .inl ⟨rfl, rfl⟩
  waits _ h := nomatch h
  closing _ := ⟨rfl, rfl, by simp [Loop.created]⟩
  noStart after before h := by simp [Loop.created] at h

/-- An event that is not a start may come after anything. -/
theorem noStart_cons {log : List Event} {event : Event}
    (h : ∀ after before, log = after ++ .closeCalled :: before → Event.started ∉ after)
    (hevent : event = .started → Event.closeCalled ∉ log) :
    ∀ after before, event :: log = after ++ .closeCalled :: before → Event.started ∉ after := by
  intro after before heq
  cases after with
  | nil => exact List.not_mem_nil
  | cons first after =>
    obtain ⟨rfl, hlog⟩ := List.cons.inj heq
    rw [List.mem_cons, not_or]
    refine ⟨fun hstarted => hevent hstarted.symm ?_, h after before hlog⟩
    rw [hlog]
    simp

theorem Invariant.operate (h : Invariant s) (throws : Bool) : Invariant (s.operate throws) := by
  unfold Loop.operate
  split_ifs with hclosed hbusy hthrows
  · exact h
  · exact h
  · have hopen : s.closed = false := by
      rw [Bool.or_eq_true, not_or] at hclosed
      simpa using hclosed.1
    obtain ⟨hclosing, hresolved, hlog⟩ := h.closing hopen
    exact ⟨h.single, h.waits, fun _ => ⟨hclosing, hresolved, by simpa using hlog⟩,
      noStart_cons h.noStart fun _ => hlog⟩
  · have hopen : s.closed = false := by
      rw [Bool.or_eq_true, not_or] at hclosed
      simpa using hclosed.1
    obtain ⟨hclosing, hresolved, hlog⟩ := h.closing hopen
    have htasks : s.tasks = [] := by
      rcases h.single with ⟨-, hnone⟩ | ⟨task, stage, hsome, -⟩
      · exact hnone
      · exact absurd (by simp [hsome]) hbusy
    refine ⟨.inr ⟨_, _, rfl, by rw [htasks]⟩, ?_, fun _ => ⟨hclosing, hresolved, by simpa using hlog⟩,
      noStart_cons h.noStart fun _ => hlog⟩
    intro awaited hawaited
    rw [show s.closing = [] from hclosing] at hawaited
    cases hawaited

theorem Invariant.setStage (h : Invariant s) (task : ℕ) (stage : Stage) :
    Invariant (s.setStage task stage) where
  single := by
    rcases h.single with ⟨hnone, htasks⟩ | ⟨current, stage', hsome, htasks⟩
    · exact .inl ⟨hnone, by simp [Loop.setStage, htasks]⟩
    · refine .inr ⟨current, if current = task then stage else stage', hsome, ?_⟩
      simp only [Loop.setStage, htasks, List.map_cons, List.map_nil]
      split_ifs with hsame
      · rw [hsame]
      · rfl
  waits awaited hawaited x hx := by
    obtain ⟨y, hy, rfl⟩ := List.mem_map.mp hx
    have hname := h.waits awaited hawaited y hy
    split_ifs with hsame
    · exact hsame ▸ hname
    · exact hname
  closing := h.closing
  noStart := h.noStart

theorem Invariant.finalize (h : Invariant s) (task : ℕ) : Invariant (s.finalize task) where
  single := by
    rcases h.single with ⟨hnone, htasks⟩ | ⟨current, stage, hsome, htasks⟩
    · exact .inl ⟨by simp [Loop.finalize, hnone], by simp [Loop.finalize, htasks]⟩
    · by_cases hsame : current = task
      · exact .inl ⟨by simp [Loop.finalize, hsome, hsame], by simp [Loop.finalize, htasks, hsame]⟩
      · exact .inr ⟨current, stage, by simp [Loop.finalize, hsome, hsame],
          by simp [Loop.finalize, htasks, hsame]⟩
  waits awaited hawaited x hx := h.waits awaited hawaited x (List.mem_filter.mp hx).1
  closing := h.closing
  noStart := h.noStart

theorem Invariant.close (h : Invariant s) : Invariant s.close := by
  have hlog := @noStart_cons _ .closeCalled h.noStart fun he => (nomatch he)
  unfold Loop.close
  split_ifs with hclosed
  · exact ⟨h.single, h.waits, fun hopen => absurd (hclosed.symm.trans hopen) (by simp), hlog⟩
  · refine ⟨h.single, ?_, fun hopen => (nomatch hopen), hlog⟩
    intro awaited hawaited x hx
    rcases List.mem_append.mp hawaited with hawaited | hawaited
    · exact h.waits awaited hawaited x hx
    · rw [List.mem_singleton.mp hawaited]
      rcases h.single with ⟨-, htasks⟩ | ⟨task, stage, hsome, htasks⟩
      · rw [htasks] at hx
        cases hx
      · rw [htasks, List.mem_singleton] at hx
        rw [hx]
        exact hsome

theorem Invariant.step (h : Invariant s) (hstep : kind.step s label = some s') : Invariant s' := by
  cases BackgroundLoop.step_cases hstep with
  | operates throws => exact h.operate throws
  | settles => exact h.setStage _ _
  | observes aborted =>
    have hset := h.setStage ‹ℕ› .observed
    exact ⟨hset.single, hset.waits, hset.closing, hset.noStart⟩
  | finishes => exact h.finalize _
  | closes => exact h.close
  | resumes hcall =>
    refine ⟨h.single, fun awaited hawaited => h.waits awaited (List.mem_of_mem_eraseIdx hawaited),
      fun hopen => ?_, h.noStart⟩
    rw [(h.closing hopen).1] at hcall
    cases hcall

theorem running_of_tasks (h : s.tasks = []) : s.running = [] := by
  rw [Loop.running, h]
  rfl

/-- A `close` call that has waited finds nothing in flight. -/
theorem Invariant.tasks_of_hasSettled (h : Invariant s) {awaited : Option ℕ}
    (hcall : awaited ∈ s.closing) (hsettled : s.hasSettled awaited = true) : s.tasks = [] := by
  rw [List.eq_nil_iff_forall_not_mem]
  intro x hx
  rw [h.waits awaited hcall x hx] at hsettled
  have hother := List.all_eq_true.mp hsettled x hx
  simp at hother

theorem running_setStage_settled (task : ℕ) {stage : Stage} (hstage : stage ≠ .running)
    (h : s.running = []) : (s.setStage task stage).running = [] := by
  rw [Loop.running, List.map_eq_nil_iff, List.filter_eq_nil_iff] at h ⊢
  intro x hx
  obtain ⟨y, hy, rfl⟩ := List.mem_map.mp hx
  split_ifs
  · simpa using hstage
  · exact h y hy

/-- Once a `close` call has resolved nothing is in flight any more, if no call was early. -/
theorem quiet_step (h : Invariant s) (hquiet : 0 < s.resolved → s.running = [])
    (hstep : kind.step s label = some s') (hearly : ¬IsEarly s label) :
    0 < s'.resolved → s'.running = [] := by
  cases BackgroundLoop.step_cases hstep with
  | operates throws =>
    unfold Loop.operate
    split_ifs with hclosed hbusy hthrows
    · exact hquiet
    · exact hquiet
    · exact hquiet
    · have hopen : s.closed = false := by
        rw [Bool.or_eq_true, not_or] at hclosed
        simpa using hclosed.1
      intro hresolved
      have hzero := (h.closing hopen).2.1
      dsimp only at hresolved
      omega
  | settles =>
    exact fun hresolved => running_setStage_settled _ (by simp) (hquiet hresolved)
  | observes aborted =>
    exact fun hresolved => running_setStage_settled _ (by simp) (hquiet hresolved)
  | finishes =>
    intro hresolved
    have hnone := hquiet hresolved
    rw [Loop.running, List.map_eq_nil_iff, List.filter_eq_nil_iff] at hnone ⊢
    exact fun x hx => hnone x (List.mem_filter.mp hx).1
  | closes =>
    unfold Loop.close
    split_ifs with hclosed
    · intro _
      by_contra hrunning
      exact hearly ⟨rfl, hclosed, hrunning⟩
    · exact hquiet
  | resumes hcall hsettled =>
    exact fun _ => running_of_tasks (h.tasks_of_hasSettled hcall hsettled)

theorem early_step (hstep : kind.step s label = some s') (hearly : IsEarly s label) :
    ¬Safe s' := by
  obtain ⟨rfl, hclosed, hrunning⟩ := hearly
  cases hstep
  intro hsafe
  rw [Loop.close, if_pos hclosed] at hsafe
  exact hrunning (hsafe.quiet (Nat.succ_pos _))

theorem invariant_start {intervalMs : ℤ} (h : kind.start intervalMs = .ok s) :
    Invariant s ∧ s.resolved = 0 := by
  unfold BackgroundLoop.start at h
  split_ifs at h with hinterval hatonce
  · simp only [Except.ok.injEq] at h
    exact h ▸ ⟨invariant_created.operate false, rfl⟩
  · simp only [Except.ok.injEq] at h
    exact h ▸ ⟨invariant_created, rfl⟩

theorem Run.invariant {steps : List (Loop × Label)} (h : kind.Run steps s) : Invariant s := by
  induction h with
  | started h => exact (invariant_start h).1
  | stepped _ hstep ih => exact ih.step hstep

/-- A run of a loop is safe in all its states exactly where no `close` call is early. -/
theorem run_safe_iff {steps : List (Loop × Label)} (h : kind.Run steps s) :
    (∀ x ∈ steps, Safe x.1) ∧ Safe s ↔ ∀ x ∈ steps, ¬IsEarly x.1 x.2 := by
  induction h with
  | started h =>
    obtain ⟨hinv, hresolved⟩ := invariant_start h
    refine iff_of_true ⟨fun x hx => (nomatch hx), hinv.noOverlap, hinv.noStart, ?_⟩
      fun x hx => (nomatch hx)
    intro hpos
    omega
  | @stepped steps s s' label hrun hstep ih =>
    have hinv := Run.invariant hrun
    have hinv' := hinv.step hstep
    rw [List.forall_mem_cons, List.forall_mem_cons, ← ih]
    constructor
    · rintro ⟨⟨hsafe, hsteps⟩, hsafe'⟩
      exact ⟨fun hearly => early_step hstep hearly hsafe', hsteps, hsafe⟩
    · rintro ⟨hearly, hsteps, hsafe⟩
      exact ⟨⟨hsafe, hsteps⟩, hinv'.noOverlap, hinv'.noStart,
        quiet_step hinv hsafe.quiet hstep hearly⟩

end Invariant

/-- For each of the three loops. -/
theorem background_loops_safe_iff : ∀ kind ∈ [startSandboxReconcilerLoop, startSandboxHeartbeatLoop,
    startRunCancellationMonitor], ∀ steps s, kind.Run steps s →
      ((∀ x ∈ steps, Safe x.1) ∧ Safe s ↔ ∀ x ∈ steps, ¬IsEarly x.1 x.2) :=
  fun _ _ _ _ h => run_safe_iff h

private def labels : List Label :=
  [.tick false, .trigger false, .close, .settle 0 .failed, .observe 0, .finish 0, .resume 0, .close]

/-- The run that takes these steps, the newest first. -/
private def play (kind : BackgroundLoop) : List (Loop × Label) × Loop → List Label →
    Option (List (Loop × Label) × Loop)
  | x, [] => some x
  | (steps, s), label :: rest =>
    (kind.step s label).bind fun s' => play kind ((s, label) :: steps, s') rest

private theorem run_of_play {kind : BackgroundLoop} {labels : List Label}
    {steps steps' : List (Loop × Label)} {s s' : Loop} (hrun : kind.Run steps s)
    (h : play kind (steps, s) labels = some (steps', s')) : kind.Run steps' s' := by
  induction labels generalizing steps s with
  | nil =>
    cases h
    exact hrun
  | cons label labels ih =>
    obtain ⟨next, hnext, hrest⟩ := Option.bind_eq_some_iff.mp h
    exact ih (hrun.stepped hnext) hrest

private def played (labels : List Label) : List (Loop × Label) × Loop :=
  (play startSandboxReconcilerLoop ([], .created) labels).getD ([], .created)

private theorem run_played (labels : List Label)
    (h : (play startSandboxReconcilerLoop ([], .created) labels).isSome = true) :
    startSandboxReconcilerLoop.Run (played labels).1 (played labels).2 := by
  obtain ⟨x, hx⟩ := Option.isSome_iff_exists.mp h
  have hplayed : played labels = x := by rw [played, hx]; rfl
  rw [hplayed]
  exact run_of_play (.started (rfl : startSandboxReconcilerLoop.start 1000 = .ok .created)) hx

theorem background_loops_safe_once : (played labels).2.resolved = 2 ∧
    (∀ x ∈ (played labels).1, Safe x.1) ∧ Safe (played labels).2 := by
  refine ⟨by decide, (background_loops_safe_iff startSandboxReconcilerLoop (by simp) _ _
    (run_played labels (by decide))).mpr ?_⟩
  unfold IsEarly
  decide

/-- The second of two `close` calls resolves while the operation is in flight. -/
theorem second_close_early : ¬∀ kind ∈ [startSandboxReconcilerLoop, startSandboxHeartbeatLoop,
    startRunCancellationMonitor], ∀ steps s, kind.Run steps s →
      (∀ x ∈ steps, Safe x.1) ∧ Safe s := by
  intro h
  have hsafe := (h startSandboxReconcilerLoop (by simp) _ _
    (run_played [.trigger false, .close, .close] (by decide))).2
  exact absurd (hsafe.quiet (by decide)) (by decide)

end AppBuilder.BackgroundLoops
