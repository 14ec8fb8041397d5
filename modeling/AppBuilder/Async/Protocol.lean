import AppBuilder.Async.Prog

/-! Protocols: automata over awaited operations, and programs that keep to one.
A program is checked against a protocol once; invariants are then proved of the phases. -/
namespace AppBuilder.Async

/-- `possible` restricts the answers that an operation can get at all. -/
structure Protocol (I : Interface) (Φ : Type) where
  permits : Φ → I.Op → Prop
  possible : (op : I.Op) → I.Answer op → Prop
  next : Φ → (op : I.Op) → I.Answer op → Φ

variable {I : Interface} {Φ α β : Type}

/-- From phase `φ` the program awaits only permitted operations; `Q` and `X` relate what it
returns or throws to the phase it has reached. -/
def Protocol.Tracks (P : Protocol I Φ) :
    Prog I α → Φ → (Q : α → Φ → Prop) → (X : I.Err → Φ → Prop) → Prop
  | .pure a, φ, Q, _ => Q a φ
  | .throw e, φ, _, X => X e φ
  | .await op next, φ, Q, X =>
    P.permits φ op ∧ ∀ r, P.possible op r → P.Tracks (next r) (P.next φ op r) Q X

namespace Protocol

variable {P : Protocol I Φ} {Q : α → Φ → Prop} {X : I.Err → Φ → Prop}

@[simp] theorem tracks_pure (a : α) (φ : Φ) : P.Tracks (.pure a) φ Q X ↔ Q a φ := Iff.rfl

@[simp] theorem tracks_throw (e : I.Err) (φ : Φ) : P.Tracks (.throw e) φ Q X ↔ X e φ := Iff.rfl

theorem tracks_await (op : I.Op) (next : I.Answer op → Prog I α) (φ : Φ) :
    P.Tracks (.await op next) φ Q X ↔
      P.permits φ op ∧ ∀ r, P.possible op r → P.Tracks (next r) (P.next φ op r) Q X := Iff.rfl

theorem Tracks.mono {Q' : α → Φ → Prop} {X' : I.Err → Φ → Prop} {p : Prog I α} {φ : Φ}
    (h : P.Tracks p φ Q X) (hQ : ∀ a ψ, Q a ψ → Q' a ψ) (hX : ∀ e ψ, X e ψ → X' e ψ) :
    P.Tracks p φ Q' X' := by
  induction p generalizing φ with
  | pure a => exact hQ a φ h
  | throw e => exact hX e φ h
  | await op next ih => exact ⟨h.1, fun r hr => ih r (h.2 r hr)⟩

@[simp] theorem tracks_bind {Q : β → Φ → Prop} (p : Prog I α) (f : α → Prog I β) (φ : Φ) :
    P.Tracks (p.bind f) φ Q X ↔ P.Tracks p φ (fun a ψ => P.Tracks (f a) ψ Q X) X := by
  induction p generalizing φ with
  | pure a => rfl
  | throw e => rfl
  | await op next ih => simp only [Prog.await_bind, tracks_await, ih]

theorem tracks_perform {op : I.Op} {Q : I.Reply op → Φ → Prop} (φ : Φ) :
    P.Tracks (.perform op) φ Q X ↔ P.permits φ op ∧
      (∀ v, P.possible op (.ok v) → Q v (P.next φ op (.ok v))) ∧
      ∀ e, P.possible op (.error e) → X e (P.next φ op (.error e)) := by
  simp only [Prog.perform, tracks_await]
  refine and_congr_right fun _ => ⟨fun h => ⟨fun v => h (.ok v), fun e => h (.error e)⟩, ?_⟩
  rintro ⟨hv, he⟩ (e | v) hr
  · exact he e hr
  · exact hv v hr

theorem tracks_step {op : I.Op} {f : I.Reply op → Prog I α} {φ : Φ} (hp : P.permits φ op)
    (hv : ∀ v, P.possible op (.ok v) → P.Tracks (f v) (P.next φ op (.ok v)) Q X)
    (he : ∀ e, P.possible op (.error e) → X e (P.next φ op (.error e))) :
    P.Tracks ((Prog.perform op).bind f) φ Q X :=
  (tracks_bind ..).mpr ((tracks_perform φ).mpr ⟨hp, hv, he⟩)

@[simp] theorem tracks_attempt {Q : Except I.Err α → Φ → Prop} (p : Prog I α) (φ : Φ) :
    P.Tracks p.attempt φ Q X ↔
      P.Tracks p φ (fun a ψ => Q (.ok a) ψ) (fun e ψ => Q (.error e) ψ) := by
  induction p generalizing φ with
  | pure a => rfl
  | throw e => rfl
  | await op next ih => simp only [Prog.attempt, tracks_await, ih]

/-- An operation whose rejection is caught. -/
theorem tracks_attempted {op : I.Op} {Q : Except I.Err (I.Reply op) → Φ → Prop} {φ : Φ}
    (hp : P.permits φ op) (h : ∀ r, P.possible op r → Q r (P.next φ op r)) :
    P.Tracks (Prog.perform op).attempt φ Q X :=
  (tracks_attempt ..).mpr ((tracks_perform φ).mpr ⟨hp, fun v => h (.ok v), fun e => h (.error e)⟩)

@[simp] theorem tracks_tryCatch (p : Prog I α) (h : I.Err → Prog I α) (φ : Φ) :
    P.Tracks (p.tryCatch h) φ Q X ↔ P.Tracks p φ Q (fun e ψ => P.Tracks (h e) ψ Q X) := by
  simp [Prog.tryCatch]

@[simp] theorem tracks_tryFinally (p : Prog I α) (q : Prog I Unit) (φ : Φ) :
    P.Tracks (p.tryFinally q) φ Q X ↔
      P.Tracks p φ (fun a ψ => P.Tracks q ψ (fun _ χ => Q a χ) X)
        (fun e ψ => P.Tracks q ψ (fun _ χ => X e χ) X) := by
  simp [Prog.tryFinally]

/-- The loop rule: `inv` is kept by every iteration. -/
theorem tracks_foldEach {σ : Type} {f : σ → α → Prog I σ} {inv : σ → Φ → Prop} {xs : List α}
    (hf : ∀ s x φ, inv s φ → x ∈ xs → P.Tracks (f s x) φ inv X) {s : σ} {φ : Φ} (h : inv s φ) :
    P.Tracks (Prog.foldEach f s xs) φ inv X := by
  induction xs generalizing s φ with
  | nil => exact h
  | cons x xs ih =>
    rw [Prog.foldEach, tracks_bind]
    exact (hf s x φ h (by simp)).mono
      (fun s' ψ hs => ih (fun s x φ hs hx => hf s x φ hs (by simp [hx])) hs) (fun _ _ he => he)

/-- A permitted operation that leaves the phase alone whatever it answers. -/
def Quiet (P : Protocol I Φ) (φ : Φ) (op : I.Op) : Prop :=
  P.permits φ op ∧ ∀ r, P.possible op r → P.next φ op r = φ

/-- The one-phase protocol that only lists the operations a program may await. -/
def footprint (ops : I.Op → Prop) (possible : (op : I.Op) → I.Answer op → Prop) :
    Protocol I Unit where
  permits _ op := ops op
  possible := possible
  next _ _ _ := ()

/-- A program that awaits only quiet operations stays in its phase. -/
theorem Tracks.of_footprint {ops : I.Op → Prop} {Q : α → Prop} {X : I.Err → Prop}
    {p : Prog I α} {φ : Φ}
    (h : (footprint ops P.possible).Tracks p () (fun a _ => Q a) (fun e _ => X e))
    (hq : ∀ op, ops op → P.Quiet φ op) :
    P.Tracks p φ (fun a ψ => ψ = φ ∧ Q a) (fun e ψ => ψ = φ ∧ X e) := by
  induction p with
  | pure a => exact ⟨rfl, h⟩
  | throw e => exact ⟨rfl, h⟩
  | await op next ih =>
    obtain ⟨hp, hn⟩ := hq op h.1
    refine ⟨hp, fun r hr => ?_⟩
    rw [hn r hr]
    exact ih r (h.2 r hr)

end Protocol
end AppBuilder.Async
