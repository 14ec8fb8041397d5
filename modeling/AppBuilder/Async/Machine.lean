import AppBuilder.Async.Prog
import Mathlib.Data.List.Basic

/-! Interleaved execution of programs over a shared state. A step runs one awaited
operation of one thread; a scheduler, failing operations and crashes pick the order. -/
namespace AppBuilder.Async

abbrev ThreadId := ℕ

/-- How the environment treats one awaited operation. `unacknowledged` performs it
and loses the reply. -/
inductive Outcome (ε : Type) where
  | done
  | refused (e : ε)
  | unacknowledged (e : ε)

/-- A shared state `σ`, entry points `E` with programs of result type `R`, and spontaneous
actions `A` of the environment. `crashes` tells whether threads may crash. -/
structure Machine (I : Interface) (σ E R A : Type) where
  exec : ThreadId → E → (op : I.Op) → σ → I.Answer op × σ
  body : E → Prog I R
  fault : I.Op → I.Err → Bool
  spawnable : E → σ → Bool
  act : A → σ → Option σ
  crashes : Bool
  onCrash : ThreadId → σ → σ

structure Thread (I : Interface) (E R : Type) where
  entry : E
  prog : Prog I R
  crashed : Bool

structure Config (I : Interface) (σ E R : Type) where
  state : σ
  threads : List (Thread I E R)

/-- The operation that a thread waits for. -/
def Config.pending {I : Interface} {σ E R : Type} (c : Config I σ E R) (t : ThreadId) :
    Option I.Op :=
  c.threads[t]?.bind fun th => th.prog.pending

theorem Config.of_pending {I : Interface} {σ E R : Type} {c : Config I σ E R} {t : ThreadId}
    {op : I.Op} (h : c.pending t = some op) :
    ∃ th next, c.threads[t]? = some th ∧ th.prog = .await op next := by
  obtain ⟨th, ht, hp⟩ := Option.bind_eq_some_iff.mp h
  cases hth : th.prog with
  | pure a =>
    rw [hth] at hp
    cases hp
  | throw e =>
    rw [hth] at hp
    cases hp
  | await op' next =>
    rw [hth] at hp
    cases hp
    exact ⟨th, next, ht, hth⟩

/-- Before any thread is started. -/
def Config.initial {I : Interface} {σ E R : Type} (s : σ) : Config I σ E R := ⟨s, []⟩

inductive Label (I : Interface) (E A : Type) where
  | spawn (e : E)
  | advance (t : ThreadId) (o : Outcome I.Err)
  | crash (t : ThreadId)
  | act (a : A)

/-- The threads after one was started. -/
theorem thread_of_append {I : Interface} {E R : Type} {ths : List (Thread I E R)}
    {th th' : Thread I E R} {u : ThreadId} (h : (ths ++ [th])[u]? = some th') :
    ths[u]? = some th' ∨ u = ths.length ∧ th' = th := by
  rw [List.getElem?_append] at h
  split_ifs at h with hlt
  · exact .inl h
  · have hz : u - ths.length = 0 := by
      by_contra hne
      simp [hne] at h
    rw [hz] at h
    refine .inr ⟨?_, (Option.some.inj h).symm⟩
    exact Nat.le_antisymm (Nat.sub_eq_zero_iff_le.mp hz) (Nat.not_lt.mp hlt)

/-- The threads after one has moved. -/
theorem thread_of_set {I : Interface} {E R : Type} {ths : List (Thread I E R)}
    {th th' : Thread I E R} {t u : ThreadId} (h : (ths.set t th)[u]? = some th') :
    u = t ∧ th' = th ∨ u ≠ t ∧ ths[u]? = some th' := by
  rw [List.getElem?_set] at h
  split_ifs at h with he hlt
  · exact .inl ⟨he.symm, (Option.some.inj h).symm⟩
  · exact .inr ⟨fun hu => he hu.symm, h⟩

/-- The operation that a step applies to the state. -/
def Config.applies {I : Interface} {σ E R A : Type} (c : Config I σ E R) :
    Label I E A → Option I.Op
  | .advance t .done | .advance t (.unacknowledged _) => c.pending t
  | _ => none

namespace Machine

variable {I : Interface} {σ E R A : Type} (M : Machine I σ E R A)

def allows (op : I.Op) : Outcome I.Err → Bool
  | .done => true
  | .refused e | .unacknowledged e => M.fault op e

def perform (t : ThreadId) (e : E) (op : I.Op) (s : σ) : Outcome I.Err → I.Answer op × σ
  | .done => M.exec t e op s
  | .refused err => (.error err, s)
  | .unacknowledged err => (.error err, (M.exec t e op s).2)

theorem perform_state (t : ThreadId) (e : E) (op : I.Op) (s : σ) (o : Outcome I.Err) :
    (M.perform t e op s o).2 = s ∨ (M.perform t e op s o).2 = (M.exec t e op s).2 := by
  cases o with
  | done => exact .inr rfl
  | refused err => exact .inl rfl
  | unacknowledged err => exact .inr rfl

/-- The answers that an operation can get at all. -/
def Answers (op : I.Op) (r : I.Answer op) : Prop :=
  ∃ t e s o, M.allows op o = true ∧ (M.perform t e op s o).1 = r

theorem answers_perform {op : I.Op} {o : Outcome I.Err} (h : M.allows op o = true) (t : ThreadId)
    (e : E) (s : σ) : M.Answers op (M.perform t e op s o).1 := ⟨t, e, s, o, h, rfl⟩

def step (c : Config I σ E R) : Label I E A → Option (Config I σ E R)
  | .spawn e =>
    if M.spawnable e c.state then some { c with threads := c.threads ++ [⟨e, M.body e, false⟩] }
    else none
  | .advance t o =>
    match c.threads[t]? with
    | some ⟨e, .await op next, false⟩ =>
      if M.allows op o then
        let r := M.perform t e op c.state o
        some ⟨r.2, c.threads.set t ⟨e, next r.1, false⟩⟩
      else none
    | _ => none
  | .crash t =>
    match M.crashes, c.threads[t]? with
    | true, some ⟨e, p, false⟩ => some ⟨M.onCrash t c.state, c.threads.set t ⟨e, p, true⟩⟩
    | _, _ => none
  | .act a => (M.act a c.state).map fun s => { c with state := s }

def play (c : Config I σ E R) : List (Label I E A) → Option (Config I σ E R)
  | [] => some c
  | l :: ls => (M.step c l).bind fun c' => play c' ls

/-- Every step of the schedule satisfies `P`, read in the configuration it is taken from. -/
def Along (P : Config I σ E R → Label I E A → Prop) :
    Config I σ E R → List (Label I E A) → Prop
  | _, [] => True
  | c, l :: ls => P c l ∧ ∀ c', M.step c l = some c' → Along P c' ls

variable {M}

@[simp] theorem play_nil (c : Config I σ E R) : M.play c [] = some c := rfl

theorem play_cons {c : Config I σ E R} {l ls c''} :
    M.play c (l :: ls) = some c'' ↔ ∃ c', M.step c l = some c' ∧ M.play c' ls = some c'' := by
  simp [play, Option.bind_eq_some_iff]

theorem play_append (c : Config I σ E R) (ls ms : List (Label I E A)) :
    M.play c (ls ++ ms) = (M.play c ls).bind fun c' => M.play c' ms := by
  induction ls generalizing c with
  | nil => rfl
  | cons l ls ih =>
    simp only [List.cons_append, play]
    cases M.step c l with
    | none => rfl
    | some c' => exact ih c'

theorem play_snoc {c c' : Config I σ E R} {ls l c''} (h : M.play c ls = some c')
    (hl : M.step c' l = some c'') : M.play c (ls ++ [l]) = some c'' := by
  rw [play_append, h]
  simp [play, hl]

theorem along_append {P : Config I σ E R → Label I E A → Prop} {c c' : Config I σ E R} {ls ms}
    (h : M.play c ls = some c') :
    M.Along P c (ls ++ ms) ↔ M.Along P c ls ∧ M.Along P c' ms := by
  induction ls generalizing c with
  | nil =>
    cases Option.some.inj h
    simp [Along]
  | cons l ls ih =>
    obtain ⟨d, hd, hp⟩ := play_cons.mp h
    simp only [List.cons_append, Along, hd, Option.some.injEq, forall_eq', ih hp, and_assoc]

theorem Along.mono {P Q : Config I σ E R → Label I E A → Prop} (hPQ : ∀ c l, P c l → Q c l)
    {c : Config I σ E R} {ls} (h : M.Along P c ls) : M.Along Q c ls := by
  induction ls generalizing c with
  | nil => trivial
  | cons l ls ih => exact ⟨hPQ c l h.1, fun c' hc => ih (h.2 c' hc)⟩

instance decidableAlong (P : Config I σ E R → Label I E A → Prop) [∀ c l, Decidable (P c l)] :
    (c : Config I σ E R) → (ls : List (Label I E A)) → Decidable (M.Along P c ls)
  | _, [] => isTrue trivial
  | c, l :: ls =>
    match h : M.step c l with
    | none => decidable_of_iff (P c l) ⟨fun hP => ⟨hP, by simp [h]⟩, And.left⟩
    | some c' =>
      have := decidableAlong P c' ls
      decidable_of_iff (P c l ∧ M.Along P c' ls) (by simp [Along, h])

theorem along_true (c : Config I σ E R) (ls : List (Label I E A)) :
    M.Along (fun _ _ => True) c ls := by
  induction ls generalizing c with
  | nil => trivial
  | cons l ls ih => exact ⟨trivial, fun c' _ => ih c'⟩

theorem along_of_forall {P : Config I σ E R → Label I E A → Prop} {ls : List (Label I E A)}
    (h : ∀ l ∈ ls, ∀ c, P c l) (c : Config I σ E R) : M.Along P c ls := by
  induction ls generalizing c with
  | nil => trivial
  | cons l ls ih => exact ⟨h l (by simp) c, fun c' _ => ih (fun m hm => h m (by simp [hm])) c'⟩

/-- The run lemma: what every admissible step preserves holds at the end of the run. -/
theorem play_invariant {P : Config I σ E R → Label I E A → Prop}
    {J : Config I σ E R → Prop}
    (hstep : ∀ c l c', J c → P c l → M.step c l = some c' → J c')
    {c c' : Config I σ E R} {ls} (ha : M.Along P c ls) (h : M.play c ls = some c')
    (hc : J c) : J c' := by
  induction ls generalizing c with
  | nil =>
    cases Option.some.inj h
    exact hc
  | cons l ls ih =>
    obtain ⟨d, hd, hp⟩ := play_cons.mp h
    exact ih (ha.2 d hd) hp (hstep c l d hc ha.1 hd)

/-- What an invariant gives of each admissible step holds along the run. -/
theorem along_of_invariant {P Q : Config I σ E R → Label I E A → Prop} {J : Config I σ E R → Prop}
    (hQ : ∀ c l, J c → P c l → Q c l)
    (hJ : ∀ c l c', J c → P c l → M.step c l = some c' → J c')
    {c : Config I σ E R} {ls} (ha : M.Along P c ls) (hc : J c) : M.Along Q c ls := by
  induction ls generalizing c with
  | nil => trivial
  | cons l ls ih =>
    exact ⟨hQ c l hc ha.1, fun d hd => ih (ha.2 d hd) (hJ c l d hc ha.1 hd)⟩

/-- What holds of every configuration of a run holds after each of its steps. -/
theorem along_of_prefixes {J : Config I σ E R → Prop} {c : Config I σ E R}
    {ls : List (Label I E A)} (h : ∀ ms d, ms <+: ls → M.play c ms = some d → J d) :
    M.Along (fun c l => ∀ d, M.step c l = some d → J d) c ls := by
  induction ls generalizing c with
  | nil => trivial
  | cons l ls ih =>
    refine ⟨fun d hd => h [l] d ⟨ls, rfl⟩ (play_cons.mpr ⟨d, hd, rfl⟩), fun d hd => ih ?_⟩
    rintro ms d' ⟨rest, rfl⟩ hplay
    exact h (l :: ms) d' ⟨rest, rfl⟩ (play_cons.mpr ⟨d, hd, hplay⟩)

/-- A relation that is reflexive, transitive and respected by every admissible step relates
the two ends of a run. -/
theorem play_relates {P : Config I σ E R → Label I E A → Prop}
    {J : Config I σ E R → Prop} {r : Config I σ E R → Config I σ E R → Prop}
    (hrefl : ∀ c, r c c) (htrans : ∀ a b c, r a b → r b c → r a c)
    (hstep : ∀ c l c', J c → P c l → M.step c l = some c' → J c' ∧ r c c')
    {c c' : Config I σ E R} {ls} (ha : M.Along P c ls) (h : M.play c ls = some c')
    (hc : J c) : J c' ∧ r c c' :=
  play_invariant (J := fun d => J d ∧ r c d)
    (fun d l d' hd hP hs =>
      have hn := hstep d l d' hd.1 hP hs
      ⟨hn.1, htrans c d d' hd.2 hn.2⟩) ha h ⟨hc, hrefl c⟩

/-- Two conditions that agree on the steps of reachable configurations agree along a run. -/
theorem along_iff {P Q : Config I σ E R → Label I E A → Prop} {J : Config I σ E R → Prop}
    (hstep : ∀ c l c', J c → M.step c l = some c' → J c' ∧ (P c l ↔ Q c l))
    {c c' : Config I σ E R} {ls} (h : M.play c ls = some c') (hc : J c) :
    M.Along P c ls ↔ M.Along Q c ls := by
  induction ls generalizing c with
  | nil => rfl
  | cons l ls ih =>
    obtain ⟨d, hd, hp⟩ := play_cons.mp h
    obtain ⟨hinv, hiff⟩ := hstep c l d hc hd
    simp only [Along, hd, Option.some.injEq, forall_eq', hiff, ih hp hinv]

/-- A preorder relates every earlier configuration of a run to every later one when each step
respects it. -/
theorem relates_iff_along {r : Config I σ E R → Config I σ E R → Prop} (hrefl : ∀ c, r c c)
    (htrans : ∀ a b c, r a b → r b c → r a c) {c c' : Config I σ E R} {ls}
    (h : M.play c ls = some c') :
    (∀ ls₁ ls₂ c₁ c₂, ls₁ ++ ls₂ <+: ls → M.play c ls₁ = some c₁ → M.play c₁ ls₂ = some c₂ →
      r c₁ c₂) ↔ M.Along (fun d l => ∀ d', M.step d l = some d' → r d d') c ls := by
  constructor
  · intro hrel
    induction ls generalizing c with
    | nil => trivial
    | cons l ls ih =>
      obtain ⟨d, hd, hp⟩ := play_cons.mp h
      refine ⟨fun d' hd' => hrel [] [l] c d' (by simp) rfl (by simp [play, hd']), ?_⟩
      intro d' hd'
      cases Option.some.inj (hd.symm.trans hd')
      refine ih hp fun ls₁ ls₂ c₁ c₂ hpre h₁ h₂ => ?_
      exact hrel (l :: ls₁) ls₂ c₁ c₂ (List.cons_prefix_cons.mpr ⟨rfl, hpre⟩)
        (play_cons.mpr ⟨d, hd, h₁⟩) h₂
  · rintro halong ls₁ ls₂ c₁ c₂ ⟨ls₃, rfl⟩ h₁ h₂
    rw [List.append_assoc] at halong
    have halong := ((along_append h₁).mp halong).2
    have halong := ((along_append h₂).mp halong).1
    exact (play_relates (J := fun _ => True) hrefl htrans
      (fun d l d' _ hok hs => ⟨trivial, hok d' hs⟩) halong h₂ trivial).2

theorem step_spawn {c c' : Config I σ E R} {e : E} (h : M.step c (.spawn e) = some c') :
    M.spawnable e c.state = true ∧
      c' = { c with threads := c.threads ++ [⟨e, M.body e, false⟩] } := by
  simp only [step] at h
  split_ifs at h with hs
  exact ⟨hs, (Option.some.inj h).symm⟩

theorem step_advance {c c' : Config I σ E R} {t o} (h : M.step c (.advance t o) = some c') :
    ∃ e op next, c.threads[t]? = some ⟨e, .await op next, false⟩ ∧ M.allows op o = true ∧
      c' = ⟨(M.perform t e op c.state o).2,
        c.threads.set t ⟨e, next (M.perform t e op c.state o).1, false⟩⟩ := by
  simp only [step] at h
  split at h
  · rename_i e op next heq
    split_ifs at h with ha
    exact ⟨e, op, next, heq, ha, (Option.some.inj h).symm⟩
  · cases h

theorem step_crash {c c' : Config I σ E R} {t} (h : M.step c (.crash t) = some c') :
    M.crashes = true ∧ ∃ e p, c.threads[t]? = some ⟨e, p, false⟩ ∧
      c' = ⟨M.onCrash t c.state, c.threads.set t ⟨e, p, true⟩⟩ := by
  simp only [step] at h
  split at h
  · rename_i e p hc heq
    exact ⟨hc, e, p, heq, (Option.some.inj h).symm⟩
  · cases h

theorem step_act {c c' : Config I σ E R} {a} (h : M.step c (.act a) = some c') :
    ∃ s, M.act a c.state = some s ∧ c' = { c with state := s } := by
  simp only [step, Option.map_eq_some_iff] at h
  obtain ⟨s, hs, rfl⟩ := h
  exact ⟨s, hs, rfl⟩

/-- Threads of a machine without crashes stay alive. -/
theorem uncrashed_step {c c' : Config I σ E R} {l} (hM : M.crashes = false)
    (h : M.step c l = some c') (hc : ∀ th ∈ c.threads, th.crashed = false) :
    ∀ th ∈ c'.threads, th.crashed = false := by
  cases l with
  | spawn e =>
    obtain ⟨-, rfl⟩ := step_spawn h
    intro th hth
    rcases List.mem_append.mp hth with hth | hth
    · exact hc th hth
    · rw [List.mem_singleton.mp hth]
  | advance t o =>
    obtain ⟨e, op, next, -, -, rfl⟩ := step_advance h
    intro th hth
    rcases List.mem_or_eq_of_mem_set hth with hth | rfl
    · exact hc th hth
    · rfl
  | crash t =>
    rw [(step_crash h).1] at hM
    cases hM
  | act a =>
    obtain ⟨s, -, rfl⟩ := step_act h
    exact hc

/-- What a step does to one thread. -/
theorem thread_step {c c' : Config I σ E R} {l} (h : M.step c l = some c') {t : ThreadId}
    {th : Thread I E R} (ht : c.threads[t]? = some th) :
    (∃ o, l = .advance t o ∧ th.crashed = false ∧ th.prog.pending ≠ none) ∨
      (l = .crash t ∧ c'.threads[t]? = some { th with crashed := true }) ∨
      c'.threads[t]? = some th := by
  have hlt : t < c.threads.length := (List.getElem?_eq_some_iff.mp ht).1
  cases l with
  | spawn e =>
    obtain ⟨-, rfl⟩ := step_spawn h
    exact .inr (.inr ((List.getElem?_append_left hlt).trans ht))
  | advance u o =>
    obtain ⟨e, op, next, hu, -, rfl⟩ := step_advance h
    by_cases hut : u = t
    · subst hut
      cases Option.some.inj (hu.symm.trans ht)
      exact .inl ⟨o, rfl, rfl, Option.some_ne_none op⟩
    · exact .inr (.inr ((List.getElem?_set_ne hut).trans ht))
  | crash u =>
    obtain ⟨-, e, p, hu, rfl⟩ := step_crash h
    by_cases hut : u = t
    · subst hut
      cases Option.some.inj (hu.symm.trans ht)
      exact .inr (.inl ⟨rfl, List.getElem?_set_self hlt⟩)
    · exact .inr (.inr ((List.getElem?_set_ne hut).trans ht))
  | act a =>
    obtain ⟨s, -, rfl⟩ := step_act h
    exact .inr (.inr ht)

/-- A thread that has crashed or ended stays as it is, but for a crash at its end. -/
theorem thread_at_rest {c c' : Config I σ E R} {ls} (h : M.play c ls = some c') {t : ThreadId}
    {th : Thread I E R} (ht : c.threads[t]? = some th)
    (hrest : th.crashed = true ∨ th.prog.pending = none) :
    c'.threads[t]? = some th ∨ c'.threads[t]? = some { th with crashed := true } := by
  induction ls generalizing c th with
  | nil =>
    cases Option.some.inj h
    exact .inl ht
  | cons l ls ih =>
    obtain ⟨d, hd, hp⟩ := play_cons.mp h
    rcases thread_step hd ht with ⟨o, -, hlive, hpending⟩ | ⟨-, hcrash⟩ | hsame
    · rcases hrest with hdead | hended
      · rw [hlive] at hdead
        cases hdead
      · exact absurd hended hpending
    · rcases ih hp hcrash (.inl rfl) with hc | hc
      · exact .inr hc
      · exact .inr hc
    · exact ih hp hsame hrest

end Machine
end AppBuilder.Async
