import AppBuilder.Agent.Generation

/-! A generation keeps every invariant that its callbacks and its abort signal keep. -/
namespace AppBuilder.Agent
open Async Store Branches

variable {Φ ρ : Type} {P : Protocol api Φ} {J : ρ → Φ → Prop} {X : AgentError → Φ → Prop}

/-- Errors of the model, the validator and the pure functions are allowed everywhere. -/
def AllowsErrors (J : ρ → Φ → Prop) (X : AgentError → Φ → Prop) : Prop :=
  ∀ e s φ, J s φ → e.code ≠ .runCancelled → X e φ

/-- Looking at the abort signal keeps the invariant. -/
def SignalKeeps (P : Protocol api Φ) (signal : Option GuardHandle) (J : ρ → Φ → Prop)
    (X : AgentError → Φ → Prop) : Prop :=
  ∀ guard ∈ signal, ∀ s φ, J s φ → P.Tracks (throwIfAborted guard) φ (fun _ ψ => J s ψ) X

/-- A callback on `ok` arguments keeps the invariant also when it fails. -/
def CallbackKeeps {α : Type} (P : Protocol api Φ) (callback : ρ → α → Promise ρ) (ok : α → Prop)
    (J : ρ → Φ → Prop) (X : AgentError → Φ → Prop) : Prop :=
  ∀ s a φ, ok a → J s φ → P.Tracks (callback s a) φ J (fun e ψ => J s ψ ∧ X e ψ)

/-- A generation ends no event log. -/
def WorkerEvent.Inner (event : WorkerEvent) : Prop := event.type.isTerminal = false

theorem execute_tracks {signal : Option GuardHandle}
    {onProgress : ρ → ValidationProgressEvent → Promise ρ} (herror : AllowsErrors J X)
    (hsignal : SignalKeeps P signal J X)
    (hprogress : CallbackKeeps P onProgress (fun _ => True) J X) (v : ValidatorRun) {s : ρ} {φ : Φ}
    (h : J s φ) :
    P.Tracks (v.execute signal onProgress s) φ (fun r ψ => J r.2 ψ) X := by
  induction v generalizing s φ with
  | finish result => exact h
  | fail error => exact herror error.val s φ h error.property
  | throwIfAborted next ih =>
    cases signal with
    | none => exact ih h
    | some guard =>
      refine (Protocol.tracks_bind ..).mpr ?_
      exact (hsignal guard rfl s φ h).mono (fun _ ψ hψ => ih hψ) fun _ _ he => he
  | report progress next ih =>
    refine (Protocol.tracks_bind ..).mpr ?_
    exact (hprogress s progress φ trivial h).mono (fun s' ψ hψ => ih hψ) fun _ _ he => he.2
  | reportOrElse progress next recover ihn ihr =>
    refine (Protocol.tracks_bind ..).mpr ((Protocol.tracks_attempt ..).mpr ?_)
    exact (hprogress s progress φ trivial h).mono (fun s' ψ hψ => ihn hψ) fun _ _ he => ihr he.1

section Generation

variable {input : RunAgentGenerationInput ρ} (herror : AllowsErrors J X)
  (hsignal : SignalKeeps P input.signal J X)
  (hevent : CallbackKeeps P input.onEvent WorkerEvent.Inner J X)

include herror in
private theorem settle_tracks {α : Type} {r : Except OrdinaryError α} {s : ρ} {φ : Φ}
    (h : J s φ) : P.Tracks (settle r) φ (fun _ ψ => J s ψ) X := by
  cases r with
  | ok a => exact h
  | error e => exact herror e.val s φ h e.property

include hevent in
private theorem event_tracks {α : Type} {event : WorkerEvent} {f : ρ → Promise α}
    {Q : α → Φ → Prop} {s : ρ} {φ : Φ} (h : J s φ) (hinner : event.Inner)
    (hf : ∀ s' ψ, J s' ψ → P.Tracks (f s') ψ Q X) :
    P.Tracks ((input.onEvent s event).bind f) φ Q X :=
  (Protocol.tracks_bind ..).mpr ((hevent s event φ hinner h).mono hf fun _ _ he => he.2)

include herror in
private theorem settle_then {α β : Type} {r : Except OrdinaryError α} {f : α → Promise β}
    {Q : β → Φ → Prop} {s : ρ} {φ : Φ} (h : J s φ)
    (hf : ∀ a ψ, J s ψ → P.Tracks (f a) ψ Q X) : P.Tracks ((settle r).bind f) φ Q X :=
  (Protocol.tracks_bind ..).mpr ((settle_tracks herror h).mono hf fun _ _ he => he)

include hevent in
private theorem fileChanges_tracks (repairAttempt : Option ℕ) (operations : List FileOperation)
    {s : ρ} {φ : Φ} (h : J s φ) :
    P.Tracks (emitFileChanges input.onEvent repairAttempt s operations) φ J X :=
  Protocol.tracks_foldEach (fun s _ φ hs _ => (hevent s _ φ (by exact rfl) hs).mono (fun _ _ hψ => hψ)
    fun _ _ he => he.2) h

include herror hevent in
private theorem generation_tracks {s : ρ} {φ : Φ} (h : J s φ) :
    P.Tracks (runAgentGeneration input s) φ (fun r ψ => J r.2 ψ) X := by
  refine event_tracks hevent h rfl fun s φ h => ?_
  refine settle_then herror h fun planned φ h => ?_
  refine event_tracks hevent h rfl fun s φ h => ?_
  refine event_tracks hevent h rfl fun s φ h => ?_
  refine settle_then herror h fun generated φ h => ?_
  split
  · exact herror _ s φ h (by simp)
  · refine settle_then herror h fun files φ h => ?_
    refine settle_then herror h fun files φ h => ?_
    refine (Protocol.tracks_bind ..).mpr ?_
    exact (fileChanges_tracks hevent none _ h).mono (fun _ _ hψ => hψ) fun _ _ he => he

include herror hevent in
private theorem repair_tracks (plan : AgentPlan) (st : RepairState) (validation : ValidationResult)
    {s : ρ} {φ : Φ} (h : J s φ) :
    P.Tracks (repairProject input plan st validation s) φ (fun r ψ => J r.2 ψ) X := by
  refine event_tracks hevent h rfl fun s φ h => ?_
  refine settle_then herror h fun repaired φ h => ?_
  refine settle_then herror h fun files φ h => ?_
  split
  · exact herror _ s φ h (by simp)
  · refine settle_then herror h fun files φ h => ?_
    refine event_tracks hevent h rfl fun s φ h => ?_
    refine (Protocol.tracks_bind ..).mpr ?_
    exact (fileChanges_tracks hevent _ _ h).mono (fun _ _ hψ => hψ) fun _ _ he => he

include herror hsignal hevent in
private theorem repairRound_tracks (plan : AgentPlan)
    {again : Option (RepairState → ρ → Promise (ValidatedAgentGenerationResult × ρ))}
    (hagain : ∀ f ∈ again, ∀ st s φ, J s φ → P.Tracks (f st s) φ (fun r ψ => J r.2 ψ) X)
    (st : RepairState) {s : ρ} {φ : Φ} (h : J s φ) :
    P.Tracks (validationRound input plan again st s) φ (fun r ψ => J r.2 ψ) X := by
  refine event_tracks hevent h rfl fun s φ h => ?_
  refine (Protocol.tracks_bind ..).mpr (Protocol.Tracks.mono (execute_tracks herror hsignal
    (fun s progress φ _ hs => hevent s _ φ (by exact rfl) hs) _ h) (fun r φ h => ?_) fun _ _ he => he)
  obtain ⟨validation, s⟩ := r
  show P.Tracks (ite _ _ _) _ _ _
  split
  · exact event_tracks hevent h rfl fun s φ h => herror _ s φ h (by simp)
  · show P.Tracks (ite _ _ _) _ _ _
    split
    · exact event_tracks hevent h rfl fun s φ h => h
    · refine event_tracks hevent h rfl fun s φ h => ?_
      split
      · exact herror _ s φ h (by simp)
      · show P.Tracks (ite _ _ _) _ _ _
        split
        · exact herror _ s φ h (by simp)
        · cases again with
          | none => exact herror _ s φ h (by simp)
          | some f =>
            refine (Protocol.tracks_bind ..).mpr ?_
            exact (repair_tracks herror hevent plan _ validation h).mono
              (fun r ψ hr => hagain f rfl r.1 r.2 ψ hr) fun _ _ he => he

include herror hsignal hevent in
private theorem loop_tracks (plan : AgentPlan) (remaining : ℕ) (st : RepairState) {s : ρ} {φ : Φ}
    (h : J s φ) :
    P.Tracks (repairLoop input plan remaining st s) φ (fun r ψ => J r.2 ψ) X := by
  induction remaining generalizing st s φ with
  | zero => exact repairRound_tracks herror hsignal hevent plan (fun _ hf => by cases hf) st h
  | succ remaining ih =>
    refine repairRound_tracks herror hsignal hevent plan (fun f hf => ?_) st h
    cases Option.some.inj hf
    exact fun st s φ hs => ih st hs

include herror hsignal hevent in
theorem generationWithValidation_tracks {s : ρ} {φ : Φ} (h : J s φ) :
    P.Tracks (runAgentGenerationWithValidation input s) φ (fun r ψ => J r.2 ψ) X :=
  (Protocol.tracks_bind ..).mpr ((generation_tracks herror hevent h).mono
    (fun r _ hr => loop_tracks herror hsignal hevent r.1.plan _ _ hr) fun _ _ he => he)

end Generation
end AppBuilder.Agent
