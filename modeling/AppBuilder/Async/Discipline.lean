import AppBuilder.Async.Machine
import AppBuilder.Async.Protocol

/-! Thread-modular invariants. `shared` speaks of the state, `own` of one thread's phase and
the state; a step shows what it does (`moves`), and what it does disturbs no other thread. -/
namespace AppBuilder.Async

variable {I : Interface} {σ E R A Φ : Type}

/-- Every entry point keeps to the protocol, and every possible answer is possible. `crash` marks
the phase of a thread that crashes. -/
structure Conformance (M : Machine I σ E R A) (P : Protocol I Φ) where
  start : E → Φ
  crash : Φ → Φ
  returns : E → R → Φ → Prop
  throws : E → I.Err → Φ → Prop
  body_tracks : ∀ e, P.Tracks (M.body e) (start e) (returns e) (throws e)
  possible : ∀ op r, M.Answers op r → P.possible op r

/-- `shared n s` may depend on the number `n` of threads started so far. `moves m s s'` is the
guarantee of a step by thread `m`, or by the environment when `m` is `none`. -/
structure Discipline {M : Machine I σ E R A} {P : Protocol I Φ} (C : Conformance M P) where
  ok : Config I σ E R → Label I E A → Prop
  shared : ℕ → σ → Prop
  own : ThreadId → E → Φ → σ → Prop
  moves : Option ThreadId → σ → σ → Prop
  spawn : ∀ n e s, shared n s → M.spawnable e s = true →
    shared (n + 1) s ∧ own n e (C.start e) s ∧ moves none s s
  advance : ∀ (c : Config I σ E R) t o e op next φ,
    c.threads[t]? = some ⟨e, .await op next, false⟩ → ok c (.advance t o) →
    M.allows op o = true → shared c.threads.length c.state → own t e φ c.state →
    P.permits φ op →
    shared c.threads.length (M.perform t e op c.state o).2 ∧
      own t e (P.next φ op (M.perform t e op c.state o).1) (M.perform t e op c.state o).2 ∧
      moves (some t) c.state (M.perform t e op c.state o).2
  crash : M.crashes = true → ∀ (c : Config I σ E R) t e p φ,
    c.threads[t]? = some ⟨e, p, false⟩ → ok c (.crash t) →
    shared c.threads.length c.state → own t e φ c.state →
    shared c.threads.length (M.onCrash t c.state) ∧ own t e (C.crash φ) (M.onCrash t c.state) ∧
      moves (some t) c.state (M.onCrash t c.state)
  act : ∀ (c : Config I σ E R) a s, ok c (.act a) → M.act a c.state = some s →
    shared c.threads.length c.state → shared c.threads.length s ∧ moves none c.state s
  stable : ∀ n m s s' u e φ, shared n s → shared n s' → moves m s s' → m ≠ some u → u < n →
    own u e φ s → own u e φ s'

namespace Discipline

variable {M : Machine I σ E R A} {P : Protocol I Φ} {C : Conformance M P} (D : Discipline C)

/-- A live thread is in a phase that its remaining program tracks. -/
structure Follows (c : Config I σ E R) (t : ThreadId) (th : Thread I E R) (φ : Φ) : Prop where
  own : D.own t th.entry φ c.state
  live : th.crashed = false → P.Tracks th.prog φ (C.returns th.entry) (C.throws th.entry)
  dead : th.crashed = true → ∃ ψ, φ = C.crash ψ

def Holds (c : Config I σ E R) : Prop :=
  D.shared c.threads.length c.state ∧
    ∀ t th, c.threads[t]? = some th → ∃ φ, D.Follows c t th φ

variable {D}

theorem holds_initial {s : σ} (h : D.shared 0 s) : D.Holds (.initial s) :=
  ⟨h, fun t th ht => by simp [Config.initial] at ht⟩

private theorem follows_others {c : Config I σ E R} {s' : σ} {m : Option ThreadId} {u th φ}
    (hs : D.shared c.threads.length c.state) (hs' : D.shared c.threads.length s')
    (hm : D.moves m c.state s') (hu : m ≠ some u) (ht : c.threads[u]? = some th)
    {ths : List (Thread I E R)} (h : D.Follows c u th φ) : D.Follows ⟨s', ths⟩ u th φ :=
  have hlt : u < c.threads.length := (List.getElem?_eq_some_iff.mp ht).1
  ⟨D.stable _ m _ _ u _ φ hs hs' hm hu hlt h.own, h.live, h.dead⟩

/-- The step lemma: an admissible step keeps the invariant and respects its guarantee. -/
theorem holds_step {c c' : Config I σ E R} {l} (h : D.Holds c) (hok : D.ok c l)
    (hstep : M.step c l = some c') : D.Holds c' ∧ ∃ m, D.moves m c.state c'.state := by
  obtain ⟨hs, hth⟩ := h
  cases l with
  | spawn e =>
    obtain ⟨hsp, rfl⟩ := Machine.step_spawn hstep
    obtain ⟨hn, hown, hm⟩ := D.spawn _ e _ hs hsp
    refine ⟨⟨by simpa using hn, fun u th hu => ?_⟩, none, hm⟩
    rcases thread_of_append hu with hu | ⟨rfl, rfl⟩
    · obtain ⟨φ, hφ⟩ := hth u th hu
      exact ⟨φ, hφ.own, hφ.live, hφ.dead⟩
    · exact ⟨C.start e, hown, fun _ => C.body_tracks e, fun h => by cases h⟩
  | advance t o =>
    obtain ⟨e, op, next, ht, ha, rfl⟩ := Machine.step_advance hstep
    obtain ⟨φ, hown, htr, -⟩ := hth t _ ht
    obtain ⟨hp, hn⟩ := htr rfl
    obtain ⟨hs', hown', hm⟩ := D.advance c t o e op next φ ht hok ha hs hown hp
    refine ⟨⟨by simpa using hs', fun u th hu => ?_⟩, some t, hm⟩
    rcases thread_of_set hu with ⟨rfl, rfl⟩ | ⟨hne, hu⟩
    · exact ⟨_, hown', fun _ => hn _ (C.possible op _ (M.answers_perform ha u e c.state)),
        fun h => by cases h⟩
    · obtain ⟨ψ, hψ⟩ := hth u th hu
      exact ⟨ψ, follows_others hs hs' hm (by simpa using hne.symm) hu hψ⟩
  | crash t =>
    obtain ⟨hcr, e, p, ht, rfl⟩ := Machine.step_crash hstep
    obtain ⟨φ, hown, -, -⟩ := hth t _ ht
    obtain ⟨hs', hown', hm⟩ := D.crash hcr c t e p φ ht hok hs hown
    refine ⟨⟨by simpa using hs', fun u th hu => ?_⟩, some t, hm⟩
    rcases thread_of_set hu with ⟨rfl, rfl⟩ | ⟨hne, hu⟩
    · exact ⟨_, hown', fun hc => (by cases hc), fun _ => ⟨φ, rfl⟩⟩
    · obtain ⟨χ, hχ⟩ := hth u th hu
      exact ⟨χ, follows_others hs hs' hm (by simpa using hne.symm) hu hχ⟩
  | act a =>
    obtain ⟨s, hact, rfl⟩ := Machine.step_act hstep
    obtain ⟨hs', hm⟩ := D.act c a s hok hact hs
    refine ⟨⟨hs', fun u th hu => ?_⟩, none, hm⟩
    obtain ⟨χ, hχ⟩ := hth u th hu
    exact ⟨χ, follows_others hs hs' hm (by simp) hu hχ⟩

theorem holds_play {c c' : Config I σ E R} {ls} (h : D.Holds c) (ha : M.Along D.ok c ls)
    (hp : M.play c ls = some c') : D.Holds c' :=
  Machine.play_invariant (fun _ _ _ hc hok hs => (holds_step hc hok hs).1) ha hp h

/-- A preorder that contains every guarantee relates the two ends of an admissible run. -/
theorem play_moves {rel : σ → σ → Prop} (hrefl : ∀ s, rel s s)
    (htrans : ∀ a b c, rel a b → rel b c → rel a c)
    (hmoves : ∀ m s s', D.moves m s s' → rel s s') {c c' : Config I σ E R} {ls}
    (h : D.Holds c) (ha : M.Along D.ok c ls) (hp : M.play c ls = some c') :
    rel c.state c'.state :=
  (Machine.play_relates (r := fun a b => rel a.state b.state) (fun a => hrefl a.state)
    (fun a b d => htrans a.state b.state d.state)
    (fun _ _ _ hc hok hs =>
      have hn := holds_step hc hok hs
      ⟨hn.1, hn.2.elim fun m hm => hmoves m _ _ hm⟩) ha hp h).2

/-- What the invariant says of the thread that a step advances. -/
theorem Holds.advancing {c : Config I σ E R} (h : D.Holds c) {t e op next}
    (ht : c.threads[t]? = some ⟨e, .await op next, false⟩) :
    ∃ φ, D.own t e φ c.state ∧ P.permits φ op ∧
      ∀ r, P.possible op r → P.Tracks (next r) (P.next φ op r) (C.returns e) (C.throws e) :=
  have ⟨φ, hown, htr, _⟩ := h.2 t _ ht
  ⟨φ, hown, (htr rfl).1, (htr rfl).2⟩

/-- What the invariant says of a thread that has returned. -/
theorem Holds.returned {c : Config I σ E R} (h : D.Holds c) {t e r}
    (ht : c.threads[t]? = some ⟨e, .pure r, false⟩) :
    ∃ φ, D.own t e φ c.state ∧ C.returns e r φ :=
  have ⟨φ, hown, htr, _⟩ := h.2 t _ ht
  ⟨φ, hown, htr rfl⟩

/-- The steps of a thread keep it in some phases, as long as they do one by one. -/
theorem tracks_along {Q : R → Φ → Prop} {X : I.Err → Φ → Prop} {S : Φ → Prop} {t : ThreadId}
    {ok : Config I σ E R → Label I E A → Prop} (C : Conformance M P)
    (hstay : ∀ c o e op next φ, c.threads[t]? = some ⟨e, .await op next, false⟩ →
      ok c (.advance t o) → P.permits φ op → S φ →
      S (P.next φ op (M.perform t e op c.state o).1))
    {c c' : Config I σ E R} {ls} (ha : M.Along ok c ls) (hp : M.play c ls = some c')
    {th : Thread I E R} (ht : c.threads[t]? = some th) {φ : Φ} (hφ : S φ)
    (htr : P.Tracks th.prog φ Q X) :
    ∃ th' ψ, c'.threads[t]? = some th' ∧ S ψ ∧ P.Tracks th'.prog ψ Q X := by
  induction ls generalizing c th φ with
  | nil =>
    cases Option.some.inj hp
    exact ⟨th, φ, ht, hφ, htr⟩
  | cons l ls ih =>
    obtain ⟨d, hd, hp⟩ := Machine.play_cons.mp hp
    have hrest := ha.2 d hd
    rcases Machine.thread_step hd ht with ⟨o, rfl, -, -⟩ | ⟨-, hcrash⟩ | hsame
    · obtain ⟨e, op, next, hu, hallow, rfl⟩ := Machine.step_advance hd
      cases Option.some.inj (hu.symm.trans ht)
      obtain ⟨hpermit, hnext⟩ := htr
      have hlt := (List.getElem?_eq_some_iff.mp ht).1
      exact ih hrest hp (List.getElem?_set_self hlt) (hstay c o e op next φ ht ha.1 hpermit hφ)
        (hnext _ (C.possible op _ (M.answers_perform hallow t e c.state)))
    · exact ih hrest hp hcrash hφ htr
    · exact ih hrest hp hsame hφ htr

end Discipline
end AppBuilder.Async
