import Mathlib.Logic.Basic

/-! Asynchronous programs: trees of awaited operations with typed replies and exceptions. -/
namespace AppBuilder.Async

/-- The operations a program may await, the type of each reply, and the errors
that operations and programs raise. -/
structure Interface where
  Op : Type
  Reply : Op → Type
  Err : Type

/-- What an awaited operation answers: a rejected promise is `.error`. -/
abbrev Interface.Answer (I : Interface) (op : I.Op) : Type := Except I.Err (I.Reply op)

inductive Prog (I : Interface) (α : Type) : Type where
  | pure (a : α)
  | throw (e : I.Err)
  | await (op : I.Op) (next : I.Answer op → Prog I α)

namespace Prog

variable {I : Interface} {α β γ : Type}

def bind : Prog I α → (α → Prog I β) → Prog I β
  | .pure a, f => f a
  | .throw e, _ => .throw e
  | .await op next, f => .await op fun r => (next r).bind f

instance : Monad (Prog I) where
  pure := .pure
  bind := .bind

/-- Await one operation and let its rejection propagate. -/
def perform (op : I.Op) : Prog I (I.Reply op) :=
  .await op fun
    | .ok v => .pure v
    | .error e => .throw e

/-- Run a program and turn its exception into a value. -/
def attempt : Prog I α → Prog I (Except I.Err α)
  | .pure a => .pure (.ok a)
  | .throw e => .pure (.error e)
  | .await op next => .await op fun r => (next r).attempt

/-- `try { p } catch (e) { h e }`. -/
def tryCatch (p : Prog I α) (h : I.Err → Prog I α) : Prog I α :=
  p.attempt.bind fun
    | .ok a => .pure a
    | .error e => h e

/-- `try { p } finally { q }`: the exception of `q` wins over the one of `p`. -/
def tryFinally (p : Prog I α) (q : Prog I Unit) : Prog I α :=
  p.attempt.bind fun r => q.bind fun _ =>
    match r with
    | .ok a => .pure a
    | .error e => .throw e

/-- `for (const x of xs) { s = await f s x }`. -/
def foldEach {σ : Type} (f : σ → α → Prog I σ) : σ → List α → Prog I σ
  | s, [] => .pure s
  | s, x :: xs => (f s x).bind fun s' => foldEach f s' xs

/-- Run a program to its end with nothing in between; `exec` performs its operations. -/
def evaluate {σ : Type} (exec : (op : I.Op) → σ → I.Answer op × σ) :
    Prog I α → σ → Except I.Err α × σ
  | .pure a, s => (.ok a, s)
  | .throw e, s => (.error e, s)
  | .await op next, s => (next (exec op s).1).evaluate exec (exec op s).2

/-- The operation a suspended program waits for. -/
def pending : Prog I α → Option I.Op
  | .await op _ => some op
  | _ => none

@[simp] theorem pure_eq (a : α) : (Pure.pure a : Prog I α) = .pure a := rfl

@[simp] theorem bind_eq (p : Prog I α) (f : α → Prog I β) : (p >>= f) = p.bind f := rfl

@[simp] theorem pure_bind (a : α) (f : α → Prog I β) : (Prog.pure a).bind f = f a := rfl

@[simp] theorem throw_bind (e : I.Err) (f : α → Prog I β) : (Prog.throw e).bind f = .throw e := rfl

@[simp] theorem await_bind (op : I.Op) (next : I.Answer op → Prog I α) (f : α → Prog I β) :
    (Prog.await op next).bind f = .await op fun r => (next r).bind f := rfl

theorem evaluate_bind {σ : Type} (exec : (op : I.Op) → σ → I.Answer op × σ) (p : Prog I α)
    (f : α → Prog I β) (s : σ) :
    (p.bind f).evaluate exec s =
      match p.evaluate exec s with
      | (.ok a, s') => (f a).evaluate exec s'
      | (.error e, s') => (.error e, s') := by
  induction p generalizing s with
  | pure a => rfl
  | throw e => rfl
  | await op next ih => exact ih _ _

theorem evaluate_bind_ok {σ : Type} {exec : (op : I.Op) → σ → I.Answer op × σ} {p : Prog I α}
    {s s' : σ} {a : α} (h : p.evaluate exec s = (.ok a, s')) (f : α → Prog I β) :
    (p.bind f).evaluate exec s = (f a).evaluate exec s' := by rw [evaluate_bind, h]

theorem evaluate_bind_error {σ : Type} {exec : (op : I.Op) → σ → I.Answer op × σ} {p : Prog I α}
    {s s' : σ} {e : I.Err} (h : p.evaluate exec s = (.error e, s')) (f : α → Prog I β) :
    (p.bind f).evaluate exec s = (.error e, s') := by rw [evaluate_bind, h]

theorem evaluate_attempt {σ : Type} (exec : (op : I.Op) → σ → I.Answer op × σ) (p : Prog I α)
    (s : σ) : p.attempt.evaluate exec s = (.ok (p.evaluate exec s).1, (p.evaluate exec s).2) := by
  induction p generalizing s with
  | pure a => rfl
  | throw e => rfl
  | await op next ih => exact ih _ _

theorem evaluate_tryCatch_ok {σ : Type} {exec : (op : I.Op) → σ → I.Answer op × σ} {p : Prog I α}
    {s s' : σ} {a : α} (h : p.evaluate exec s = (.ok a, s')) (handler : I.Err → Prog I α) :
    (p.tryCatch handler).evaluate exec s = (.ok a, s') := by
  have hattempt : p.attempt.evaluate exec s = (.ok (.ok a), s') := by rw [evaluate_attempt, h]
  exact evaluate_bind_ok hattempt _

theorem evaluate_tryCatch_error {σ : Type} {exec : (op : I.Op) → σ → I.Answer op × σ}
    {p : Prog I α} {s s' : σ} {e : I.Err} (h : p.evaluate exec s = (.error e, s'))
    (handler : I.Err → Prog I α) :
    (p.tryCatch handler).evaluate exec s = (handler e).evaluate exec s' := by
  have hattempt : p.attempt.evaluate exec s = (.ok (.error e), s') := by rw [evaluate_attempt, h]
  exact evaluate_bind_ok hattempt _

theorem evaluate_perform {σ : Type} (exec : (op : I.Op) → σ → I.Answer op × σ) (op : I.Op) (s : σ) :
    (perform op).evaluate exec s = exec op s := by
  rw [perform, evaluate]
  obtain ⟨r, s'⟩ := exec op s
  cases r with
  | error e => rfl
  | ok v => rfl

theorem bind_assoc (p : Prog I α) (f : α → Prog I β) (g : β → Prog I γ) :
    (p.bind f).bind g = p.bind fun a => (f a).bind g := by
  induction p with
  | pure a => rfl
  | throw e => rfl
  | await op next ih =>
    simp only [await_bind]
    congr 1
    funext r
    exact ih r

end Prog
end AppBuilder.Async
