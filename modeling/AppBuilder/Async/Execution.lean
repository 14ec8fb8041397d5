import AppBuilder.Async.History

/-! Single executions of a program, and programs that await operations of a kind only. -/
namespace AppBuilder.Async

variable {I : Interface} {α β : Type}

/-- The exchanges of a program from its start to its end, oldest first. -/
inductive Executes : Prog I α → List (Exchange I) → Except I.Err α → Prop
  | returned (a : α) : Executes (.pure a) [] (.ok a)
  | thrown (e : I.Err) : Executes (.throw e) [] (.error e)
  | awaited {op : I.Op} {next : I.Answer op → Prog I α} {answer : I.Answer op}
      {exchanges : List (Exchange I)} {result : Except I.Err α}
      (h : Executes (next answer) exchanges result) :
      Executes (.await op next) (⟨op, answer⟩ :: exchanges) result

/-- Whatever the answers are, the program awaits only these operations. -/
def Prog.Awaits (ops : I.Op → Prop) : Prog I α → Prop
  | .pure _ => True
  | .throw _ => True
  | .await op next => ops op ∧ ∀ r, (next r).Awaits ops

namespace Prog

variable {ops : I.Op → Prop}

@[simp] theorem awaits_pure (a : α) : (Prog.pure a : Prog I α).Awaits ops := trivial

@[simp] theorem awaits_throw (e : I.Err) : (Prog.throw e : Prog I α).Awaits ops := trivial

theorem awaits_perform {op : I.Op} (h : ops op) : (perform op).Awaits ops := by
  refine ⟨h, fun r => ?_⟩
  cases r with
  | error e => trivial
  | ok v => trivial

theorem Awaits.bind {p : Prog I α} {f : α → Prog I β} (hp : p.Awaits ops)
    (hf : ∀ a, (f a).Awaits ops) : (p.bind f).Awaits ops := by
  induction p with
  | pure a => exact hf a
  | throw e => trivial
  | await op next ih => exact ⟨hp.1, fun r => ih r (hp.2 r)⟩

theorem Awaits.attempt {p : Prog I α} (hp : p.Awaits ops) : p.attempt.Awaits ops := by
  induction p with
  | pure a => trivial
  | throw e => trivial
  | await op next ih => exact ⟨hp.1, fun r => ih r (hp.2 r)⟩

theorem Awaits.tryCatch {p : Prog I α} {h : I.Err → Prog I α} (hp : p.Awaits ops)
    (hh : ∀ e, (h e).Awaits ops) : (p.tryCatch h).Awaits ops := by
  refine hp.attempt.bind fun r => ?_
  cases r with
  | error e => exact hh e
  | ok a => trivial

theorem awaits_foldEach {σ : Type} {f : σ → α → Prog I σ} (hf : ∀ s x, (f s x).Awaits ops)
    (s : σ) (xs : List α) : (foldEach f s xs).Awaits ops := by
  induction xs generalizing s with
  | nil => trivial
  | cons x xs ih => exact (hf s x).bind ih

end Prog

namespace Protocol

variable {permits : History I → I.Op → Prop} {possible : (op : I.Op) → I.Answer op → Prop}

/-- A program has ended as its two conditions say. -/
def Ends (Q : α → History I → Prop) (X : I.Err → History I → Prop) :
    Except I.Err α → History I → Prop
  | .ok a, h => Q a h
  | .error e, h => X e h

/-- What is tracked holds at the end of every execution with possible answers. -/
theorem Tracks.of_executes {p : Prog I α} {h : History I} {Q : α → History I → Prop}
    {X : I.Err → History I → Prop} (hp : (ofHistory permits possible).Tracks p h Q X)
    {exchanges : List (Exchange I)} {result : Except I.Err α}
    (hrun : Executes p exchanges result) (hpossible : ∀ x ∈ exchanges, possible x.op x.answer) :
    Ends Q X result (exchanges.reverse ++ h) := by
  induction hrun generalizing h with
  | returned a => exact hp
  | thrown e => exact hp
  | @awaited op next answer exchanges result hrest ih =>
    have hnext := hp.2 answer (hpossible _ List.mem_cons_self)
    have hend := ih hnext fun x hx => hpossible x (List.mem_cons_of_mem _ hx)
    rw [List.reverse_cons, List.append_assoc]
    exact hend

/-- The history of a program that awaits operations of a kind grows by exchanges of that kind. -/
theorem tracks_awaits {ops : I.Op → Prop} {p : Prog I α} (hp : p.Awaits ops)
    (hpermits : ∀ h op, ops op → permits h op) (h : History I) :
    (ofHistory permits possible).Tracks p h
      (fun _ h' => ∃ new, h' = new ++ h ∧ ∀ x ∈ new, ops x.op)
      (fun _ h' => ∃ new, h' = new ++ h ∧ ∀ x ∈ new, ops x.op) := by
  induction p generalizing h with
  | pure a => exact ⟨[], rfl, by simp⟩
  | throw e => exact ⟨[], rfl, by simp⟩
  | await op next ih =>
    refine ⟨hpermits h op hp.1, fun r _ => ?_⟩
    have hgrown : ∀ h', (∃ new, h' = new ++ ⟨op, r⟩ :: h ∧ ∀ x ∈ new, ops x.op) →
        ∃ new, h' = new ++ h ∧ ∀ x ∈ new, ops x.op := by
      rintro h' ⟨new, rfl, hnew⟩
      refine ⟨new ++ [⟨op, r⟩], by simp, ?_⟩
      intro x hx
      rcases List.mem_append.mp hx with hx | hx
      · exact hnew x hx
      · rw [List.mem_singleton.mp hx]
        exact hp.1
    exact (ih r (hp.2 r) (⟨op, r⟩ :: h)).mono (fun _ => hgrown) fun _ => hgrown

end Protocol
end AppBuilder.Async
