import AppBuilder.Async.Discipline

/-! A discipline on top of another: what it adds may rely on everything below it. -/
namespace AppBuilder.Async

variable {I : Interface} {σ E R A Φ : Type} {M : Machine I σ E R A} {P : Protocol I Φ}
  {C : Conformance M P}

/-- The obligations of `Discipline` for what is added, given what `D` says before and after. -/
structure Extension (D : Discipline C) where
  ok : Config I σ E R → Label I E A → Prop
  shared : ℕ → σ → Prop
  own : ThreadId → E → Φ → σ → Prop
  moves : Option ThreadId → σ → σ → Prop
  spawn : ∀ n e s, D.shared n s → shared n s → M.spawnable e s = true →
    D.own n e (C.start e) s → shared (n + 1) s ∧ own n e (C.start e) s ∧ moves none s s
  advance : ∀ (c : Config I σ E R) t o e op next φ,
    c.threads[t]? = some ⟨e, .await op next, false⟩ → ok c (.advance t o) →
    M.allows op o = true → D.shared c.threads.length c.state → D.own t e φ c.state →
    P.permits φ op →
    D.shared c.threads.length (M.perform t e op c.state o).2 →
    D.own t e (P.next φ op (M.perform t e op c.state o).1) (M.perform t e op c.state o).2 →
    D.moves (some t) c.state (M.perform t e op c.state o).2 →
    shared c.threads.length c.state → own t e φ c.state →
    shared c.threads.length (M.perform t e op c.state o).2 ∧
      own t e (P.next φ op (M.perform t e op c.state o).1) (M.perform t e op c.state o).2 ∧
      moves (some t) c.state (M.perform t e op c.state o).2
  crash : M.crashes = true → ∀ (c : Config I σ E R) t e p φ,
    c.threads[t]? = some ⟨e, p, false⟩ → ok c (.crash t) → D.shared c.threads.length c.state →
    D.own t e φ c.state → D.moves (some t) c.state (M.onCrash t c.state) →
    shared c.threads.length c.state → own t e φ c.state →
    shared c.threads.length (M.onCrash t c.state) ∧ own t e (C.crash φ) (M.onCrash t c.state) ∧
      moves (some t) c.state (M.onCrash t c.state)
  act : ∀ (c : Config I σ E R) a s, ok c (.act a) → M.act a c.state = some s →
    D.shared c.threads.length c.state → D.moves none c.state s →
    shared c.threads.length c.state → shared c.threads.length s ∧ moves none c.state s
  stable : ∀ n m s s' u e φ, D.shared n s → D.shared n s' → D.moves m s s' →
    shared n s → shared n s' → moves m s s' → m ≠ some u → u < n →
    D.own u e φ s → own u e φ s → own u e φ s'

namespace Extension

variable {D : Discipline C} (X : Extension D)

def discipline : Discipline C where
  ok c l := D.ok c l ∧ X.ok c l
  shared n s := D.shared n s ∧ X.shared n s
  own t e φ s := D.own t e φ s ∧ X.own t e φ s
  moves m s s' := D.moves m s s' ∧ X.moves m s s'
  spawn n e s h hs :=
    have ⟨hD, hown, hm⟩ := D.spawn n e s h.1 hs
    have hX := X.spawn n e s h.1 h.2 hs hown
    ⟨⟨hD, hX.1⟩, ⟨hown, hX.2.1⟩, hm, hX.2.2⟩
  advance c t o e op next φ ht hok ha h hown hp :=
    have ⟨hD, hown', hm⟩ := D.advance c t o e op next φ ht hok.1 ha h.1 hown.1 hp
    have hX := X.advance c t o e op next φ ht hok.2 ha h.1 hown.1 hp hD hown' hm h.2 hown.2
    ⟨⟨hD, hX.1⟩, ⟨hown', hX.2.1⟩, hm, hX.2.2⟩
  crash hM c t e p φ ht hok h hown :=
    have ⟨hD, hown', hm⟩ := D.crash hM c t e p φ ht hok.1 h.1 hown.1
    have hX := X.crash hM c t e p φ ht hok.2 h.1 hown.1 hm h.2 hown.2
    ⟨⟨hD, hX.1⟩, ⟨hown', hX.2.1⟩, hm, hX.2.2⟩
  act c a s hok ha h :=
    have ⟨hD, hm⟩ := D.act c a s hok.1 ha h.1
    have hX := X.act c a s hok.2 ha h.1 hm h.2
    ⟨⟨hD, hX.1⟩, hm, hX.2⟩
  stable n m s s' u e φ h h' hm hu hlt hown :=
    ⟨D.stable n m s s' u e φ h.1 h'.1 hm.1 hu hlt hown.1,
      X.stable n m s s' u e φ h.1 h'.1 hm.1 h.2 h'.2 hm.2 hu hlt hown.1 hown.2⟩

/-- What is added does not weaken the discipline below. -/
theorem holds_below {c : Config I σ E R} (h : X.discipline.Holds c) : D.Holds c := by
  refine ⟨h.1.1, fun t th ht => ?_⟩
  obtain ⟨φ, hown, hlive, hdead⟩ := h.2 t th ht
  exact ⟨φ, hown.1, hlive, hdead⟩

end Extension
end AppBuilder.Async
