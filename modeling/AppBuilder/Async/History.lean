import AppBuilder.Async.Protocol
import Mathlib.Data.List.Infix

/-! Protocols that remember: the phase of a program is the list of its exchanges, newest first. -/
namespace AppBuilder.Async

/-- An awaited operation with what it answered. -/
structure Exchange (I : Interface) where
  op : I.Op
  answer : I.Answer op

abbrev History (I : Interface) := List (Exchange I)

variable {I : Interface} {α : Type}

/-- What a program may do is told by what it has done. -/
def Protocol.ofHistory (permits : History I → I.Op → Prop)
    (possible : (op : I.Op) → I.Answer op → Prop) : Protocol I (History I) where
  permits := permits
  possible := possible
  next h op r := ⟨op, r⟩ :: h

namespace Protocol

variable {permits : History I → I.Op → Prop} {possible : (op : I.Op) → I.Answer op → Prop}
  {Q : α → History I → Prop} {X : I.Err → History I → Prop} {p : Prog I α} {h : History I}

/-- A history only grows. -/
theorem Tracks.extends (hp : (ofHistory permits possible).Tracks p h Q X) :
    (ofHistory permits possible).Tracks p h (fun a h' => h <:+ h' ∧ Q a h')
      (fun e h' => h <:+ h' ∧ X e h') := by
  induction p generalizing h with
  | pure a => exact ⟨List.suffix_refl h, hp⟩
  | throw e => exact ⟨List.suffix_refl h, hp⟩
  | await op next ih =>
    refine ⟨hp.1, fun r hr => ?_⟩
    have hext := ih r (hp.2 r hr)
    have hcons : h <:+ ⟨op, r⟩ :: h := List.suffix_cons _ h
    exact hext.mono (fun a h' ha => ⟨hcons.trans ha.1, ha.2⟩) fun e h' he =>
      ⟨hcons.trans he.1, he.2⟩

/-- Run one program after another; what the first one found stays in the history. -/
theorem tracks_then {β : Type} {f : α → Prog I β} {R : β → History I → Prop}
    (hp : (ofHistory permits possible).Tracks p h Q X)
    (hf : ∀ a h', h <:+ h' → Q a h' → (ofHistory permits possible).Tracks (f a) h' R X) :
    (ofHistory permits possible).Tracks (p.bind f) h R X :=
  (tracks_bind ..).mpr (hp.extends.mono (fun a h' ha => hf a h' ha.1 ha.2) fun _ _ he => he.2)

end Protocol
end AppBuilder.Async
