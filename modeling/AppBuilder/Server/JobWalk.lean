import AppBuilder.Agent.GenerationRules
import AppBuilder.Server.Phase

/-! A delivered job keeps to the protocol. -/
namespace AppBuilder.Server
open Agent Async Store Branches

namespace Phase

/-- Nothing is owed, unless an error came in between. -/
def Clean (φ : Phase) : Prop :=
  (φ.owes = none ∨ φ.silent = true) ∧ (φ.mirror = none ∨ φ.stale = true)

def Idle (φ : Phase) : Prop := φ.owes = none ∧ φ.mirror = none

theorem fail_clean (φ : Phase) : φ.fail.Clean := by
  refine ⟨?_, ?_⟩
  · cases h : φ.owes <;> simp [fail, h]
  · cases h : φ.mirror <;> simp [fail, h]

theorem Idle.clean {φ : Phase} (h : φ.Idle) : φ.Clean := ⟨.inl h.1, .inl h.2⟩

theorem Clean.fail {φ : Phase} (h : φ.Clean) : φ.fail = φ := by
  obtain ⟨ho, hm⟩ := h
  cases φ
  rcases ho with ho | ho <;> rcases hm with hm | hm <;> simp_all [Phase.fail]

theorem Idle.fail {φ : Phase} (h : φ.Idle) : φ.fail = φ := h.clean.fail

end Phase

/-- A run in the memory of the worker that processes it. -/
structure Working (execution : Option GuardHandle) (ref : RunRef) (φ : Phase) : Prop where
  call : φ.call.run? = some ref.id
  run : φ.run = some ref
  guard : φ.guard = execution
  idle : φ.Idle

/-- What holds when the processing of a run throws. -/
structure Stopped (runId : ObjectId) (e : AgentError) (φ : Phase) : Prop where
  call : φ.call.run? = some runId
  clean : φ.Clean
  cancelled : e.code = .runCancelled → φ.sawCancelled = true

section Operations

variable {α : Type} {φ : Phase} {op : Op} {f : op.Reply → Promise α} {Q : α → Phase → Prop}
  {X : AgentError → Phase → Prop}

theorem step_tracks (hp : Permit φ op)
    (hv : ∀ v, op.Answered (.ok v) → protocol.Tracks (f v) (φ.next op (.ok v)) Q X)
    (he : ∀ e : AgentError, e.code ≠ .runCancelled → X e (φ.next op (.error e))) :
    protocol.Tracks ((perform op).bind f) φ Q X :=
  tracks_then hp hv fun e h => he e h.code_ne

theorem last_tracks {Q : op.Reply → Phase → Prop} (hp : Permit φ op)
    (hv : ∀ v, op.Answered (.ok v) → Q v (φ.next op (.ok v)))
    (he : ∀ e : AgentError, e.code ≠ .runCancelled → X e (φ.next op (.error e))) :
    protocol.Tracks (perform op) φ Q X :=
  tracks_last hp hv fun e h => he e h.code_ne

end Operations

theorem next_quiet (φ : Phase) {op : Op} (h : quiet op = true) (v : op.Reply) :
    φ.next op (.ok v) = φ := by
  cases op <;> first | rfl | cases h

theorem next_error (φ : Phase) (op : Op) (e : AgentError) :
    φ.next op (.error e) = φ.fail ∨ φ.next op (.error e) = φ := by
  cases op <;> first | exact .inl rfl | exact .inr rfl

/-- Errors that are not a cancellation and leave an idle phase alone. -/
def Failed (φ : Phase) (e : AgentError) (ψ : Phase) : Prop :=
  e.code ≠ .runCancelled ∧ ψ = φ.fail

theorem Failed.of_idle {φ ψ : Phase} {e : AgentError} (h : Failed φ e ψ) (hi : φ.Idle) : ψ = φ :=
  h.2.trans hi.fail

theorem Failed.stopped {φ ψ : Phase} {e : AgentError} {runId : ObjectId} (h : Failed φ e ψ)
    (hr : φ.call.run? = some runId) : Stopped runId e ψ :=
  ⟨h.2 ▸ hr, h.2 ▸ φ.fail_clean, fun hc => absurd hc h.1⟩

/-- A program that teaches its caller nothing. -/
def Inert {α : Type} (p : Promise α) (φ : Phase) : Prop :=
  protocol.Tracks p φ (fun _ ψ => ψ = φ) fun e ψ => e.code ≠ .runCancelled ∧ ψ = φ

namespace Inert

variable {α β : Type} {φ : Phase}

theorem bind {p : Promise α} {f : α → Promise β} (hp : Inert p φ) (hf : ∀ a, Inert (f a) φ) :
    Inert (p.bind f) φ :=
  (Protocol.tracks_bind ..).mpr (Protocol.Tracks.mono hp (fun a _ hψ => hψ ▸ hf a) fun _ _ he => he)

theorem tryCatch {p : Promise α} {h : AgentError → Promise α} (hp : Inert p φ)
    (hh : ∀ e : AgentError, e.code ≠ .runCancelled → Inert (h e) φ) : Inert (p.tryCatch h) φ :=
  (Protocol.tracks_tryCatch ..).mpr
    (Protocol.Tracks.mono hp (fun _ _ hψ => hψ) fun e _ he => he.2 ▸ hh e he.1)

theorem awaitSome {x : Option α} {f : α → Promise (Option β)} (hf : ∀ a, Inert (f a) φ) :
    Inert (awaitSome x f) φ := by
  cases x with
  | none => exact rfl
  | some a => exact hf a

/-- After an error that came between a status and its event nothing more can be lost. -/
theorem perform {op : Op} (hc : φ.Clean) (hp : Permit φ op)
    (hn : ∀ v, φ.next op (.ok v) = φ) : Inert (perform op) φ :=
  last_tracks hp (fun v _ => hn v) fun e he =>
    ⟨he, (next_error φ op e).elim (·.trans hc.fail) id⟩

theorem quiet {op : Op} (hc : φ.Clean) (hq : Server.quiet op = true) :
    Inert (Store.perform op) φ := perform hc (.quiet hq) fun v => next_quiet φ hq v

/-- Go on after an inert program. -/
theorem andThen {p : Promise α} {f : α → Promise β} {Q : β → Phase → Prop}
    {X : AgentError → Phase → Prop} (hp : Inert p φ) (hf : ∀ a, protocol.Tracks (f a) φ Q X)
    (hX : ∀ e : AgentError, e.code ≠ .runCancelled → X e φ) :
    protocol.Tracks (p.bind f) φ Q X :=
  (Protocol.tracks_bind ..).mpr
    (Protocol.Tracks.mono hp (fun a _ hψ => hψ ▸ hf a) fun e _ he => he.2 ▸ hX e he.1)

end Inert

section Events

variable {input : EmitAgentEventInput} {φ : Phase}

/-- An event that does not end the log teaches nothing. -/
theorem emit_tracks (h : input.type.isTerminal = false) :
    protocol.Tracks (emitAgentEvent input) φ (fun _ ψ => ψ = φ) (Failed φ) := by
  refine (Protocol.tracks_bind ..).mpr (step_tracks (.quiet rfl) (fun latest _ => ?_)
    fun e he => ⟨he, rfl⟩)
  refine step_tracks (.createEvent h) (fun event _ => ?_) fun e he => ⟨he, rfl⟩
  have hn : φ.next (.createEvent (input.document (nextSequence latest))) (.ok event) = φ :=
    if_neg (by simp [EmitAgentEventInput.document, h])
  refine step_tracks (.quiet rfl) (fun _ _ => hn) fun e he => ⟨he, congrArg Phase.fail hn⟩

/-- The final event of a run pays what is owed. -/
theorem finalEvent_tracks (hr : φ.call.run? = some input.runId)
    (ht : input.type.isTerminal = true)
    (h : φ.owes = some input.type ∨ φ.repeats = some input.type) :
    protocol.Tracks (emitAgentEvent input) φ (fun _ ψ => ψ = { φ with owes := none })
      fun e ψ => Failed φ e ψ ∨ Failed { φ with owes := none } e ψ := by
  refine (Protocol.tracks_bind ..).mpr (step_tracks (.quiet rfl) (fun latest _ => ?_)
    fun e he => .inl ⟨he, rfl⟩)
  refine step_tracks (.finalEvent hr h) (fun event _ => ?_) fun e he => .inl ⟨he, rfl⟩
  have hn : φ.next (.createEvent (input.document (nextSequence latest))) (.ok event) =
      { φ with owes := none } := if_pos ht
  refine step_tracks (.quiet rfl) (fun _ _ => hn) fun e he =>
    .inr ⟨he, congrArg Phase.fail hn⟩

end Events

section Lease

variable {φ : Phase} {runId : ObjectId}

private theorem upsertBranchLease_tracks (fields : BranchExecutionLease) (now : Time) :
    protocol.Tracks (upsertBranchLease fields now) φ (fun _ ψ => ψ = φ ∨ ψ = φ.fail)
      (Failed φ) := by
  refine (Protocol.tracks_tryCatch ..).mpr (step_tracks (.quiet rfl) (fun lease _ => .inl rfl)
    fun e he => ?_)
  split
  · exact .inr rfl
  · exact ⟨he, rfl⟩

theorem acquire_tracks (hr : φ.call.run? = some runId) (hi : φ.Idle) {ttlMs : ℕ} :
    protocol.Tracks (acquireBranchExecution runId ttlMs) φ
      (fun guard ψ => ψ = { φ with guard := guard.or φ.guard })
      (fun e ψ => e.code ≠ .runCancelled ∧ ψ = φ) := by
  have hX : ∀ e ψ, Failed φ e ψ → e.code ≠ .runCancelled ∧ ψ = φ := fun e ψ h =>
    ⟨h.1, h.of_idle hi⟩
  refine step_tracks (.findRun _ hr) (fun run hrun => ?_) fun e he => hX _ _ ⟨he, rfl⟩
  cases run with
  | none => exact rfl
  | some run =>
    have hid : run._id = runId := answered_findRun hrun
    dsimp only
    split
    · refine step_tracks (.quiet rfl) (fun now _ => ?_) fun e he => hX _ _ ⟨he, rfl⟩
      refine (Protocol.tracks_bind ..).mpr ((upsertBranchLease_tracks _ _).mono ?_ hX)
      intro lease ψ hψ
      have hψ : ψ = φ := hψ.elim id fun h => h.trans hi.fail
      subst hψ
      cases lease with
      | none => exact rfl
      | some lease =>
        show protocol.Tracks (ite _ _ _) ψ _ _
        split
        · exact step_tracks (.newGuard _ _ _ (hid ▸ hr)) (fun guard _ => rfl)
            fun e he => hX _ _ ⟨he, rfl⟩
        · exact rfl
    · exact rfl

theorem release_tracks (guard : GuardHandle) :
    protocol.Tracks (release guard) φ (fun _ ψ => ψ = φ) (Failed φ) :=
  step_tracks (.quiet rfl) (fun _ _ => step_tracks (.quiet rfl) (fun _ _ =>
    last_tracks (.quiet rfl) (fun _ _ => rfl) fun _ he => ⟨he, rfl⟩) fun _ he => ⟨he, rfl⟩)
    fun _ he => ⟨he, rfl⟩

end Lease

section Signal

variable {execution : Option GuardHandle} {ref : RunRef} {φ : Phase} {guard : GuardHandle}

/-- Seeing the cancellation, or that the run has ended, keeps a worker working. -/
theorem Working.seen (h : Working execution ref φ) (cancelled settled : Bool) :
    Working execution ref { φ with sawCancelled := cancelled, settled := settled } :=
  ⟨h.call, h.run, h.guard, h.idle⟩

theorem Working.stopped (h : Working execution ref φ) {e : AgentError}
    (he : e.code = .runCancelled → φ.sawCancelled = true) : Stopped ref.id e φ :=
  ⟨h.call, h.idle.clean, he⟩

theorem Working.failed (h : Working execution ref φ) {e : AgentError} (he : e.code ≠ .runCancelled) :
    Working execution ref φ.fail ∧ Stopped ref.id e φ.fail :=
  h.idle.fail.symm ▸ ⟨h, h.stopped fun hc => absurd hc he⟩

theorem signal_tracks (h : Working (some guard) ref φ) :
    protocol.Tracks (throwIfAborted guard) φ (fun _ ψ => Working (some guard) ref ψ ∧
        ψ.persisted = φ.persisted)
      (fun e ψ => Working (some guard) ref ψ ∧ Stopped ref.id e ψ) := by
  refine step_tracks (.guardAborted h.guard) (fun aborted _ => ?_) fun e he => h.failed he
  have hw := h.seen (φ.sawCancelled || aborted) φ.settled
  cases aborted with
  | false => exact ⟨hw, rfl⟩
  | true => exact ⟨hw, hw.stopped fun _ => Bool.or_true _⟩

theorem assertHeld_tracks (h : Working execution ref φ) :
    protocol.Tracks (assertExecutionHeld execution) φ (fun _ ψ => Working execution ref ψ)
      (fun e ψ => Stopped ref.id e ψ) := by
  cases execution with
  | none => exact h
  | some guard =>
    refine (Protocol.tracks_bind ..).mpr ((signal_tracks h).mono (fun _ ψ hψ => ?_)
      fun _ _ he => he.2)
    have h := hψ.1
    have hfail : ∀ e : AgentError, e.code ≠ .runCancelled → Stopped ref.id e ψ.fail :=
      fun _ he => (h.failed he).2
    refine step_tracks (.quiet rfl) (fun lost _ => ?_) hfail
    have hlast : ∀ lost : Bool, protocol.Tracks
        (if lost then .throw branchExecutionLostError else throwIfAborted guard) ψ
        (fun _ χ => Working (some guard) ref χ) (fun e χ => Stopped ref.id e χ) := by
      intro lost
      cases lost with
      | true => exact h.stopped fun hc => by cases hc
      | false => exact (signal_tracks h).mono (fun _ _ hw => hw.1) fun _ _ he => he.2
    cases lost with
    | true => exact hlast true
    | false =>
      refine (Protocol.tracks_bind ..).mpr ?_
      refine step_tracks (.quiet rfl) (fun now _ => ?_) hfail
      refine step_tracks (.quiet rfl) (fun held _ => ?_) hfail
      exact step_tracks (.quiet rfl) (fun _ _ => hlast _) hfail

end Signal

end AppBuilder.Server
