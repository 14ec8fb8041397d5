import AppBuilder.Sandbox.WorkspaceQuotaLock
import Mathlib.Data.List.Nodup

/-! At any time one caller at most passes the check of the workspace lock, whatever expires. -/
namespace AppBuilder.Sandbox
open Agent Async

section Machine

variable (options : WorkspaceQuotaLockOptions) (α : Type)

/-- The interval of a guard calls `renew`. -/
inductive LockCall where
  | withLock (workspaceId : ObjectId) (callback : Prog callbackApi α)
  | renew (key : String) (token : Token)

variable {α} in
def LockCall.body : LockCall α → LockPromise (Option α)
  | .withLock workspaceId callback => do
    let result ← Sandbox.withLock options workspaceId callback
    return some result
  | .renew key token => do
    Sandbox.renew options key token
    return none

variable {α} in
def LockCall.spawnable : LockCall α → LockWorld → Bool
  | .withLock .., _ => true
  | .renew key token, w => w.guards.any fun g => g.key == key && g.token == token && g.renewing

/-- Any number of callers with any callbacks. Time passes between steps, Redis may be out of
reach at any command, and callers may crash. -/
def locking : Machine lockApi LockWorld (LockCall α) (Option α) ℕ where
  exec t _ op w := LockWorld.exec t op w
  body := LockCall.body options
  fault op _ := op.isRedis
  spawnable := LockCall.spawnable
  act ms w := some { w with clock := w.clock + ms }
  crashes := true
  onCrash _ w := w

abbrev Locking : Type := Config lockApi LockWorld (LockCall α) (Option α)

end Machine

inductive LockPhase where
  | start (key : String)
  | trying (key : String) (token : Token)
  | acquired (key : String) (token : Token)
  | holding (key : String) (token : Token)
  | released (key : String) (token : Token)
  /-- A command of the caller has failed, and it is not known what Redis did. -/
  | unsure (key : String) (token : Token)
  | renewing (key : String) (token : Token)

inductive LockPermit : LockPhase → LockOp → Prop where
  | token {key} : LockPermit (.start key) .token
  | now {key a} : LockPermit (.trying key a) .now
  | sleep {key a} (wake : Time) : LockPermit (.trying key a) (.sleep wake)
  | set {key a} (ttlMs : ℕ) : LockPermit (.trying key a) (.set key a ttlMs)
  | openGuard {key a} : LockPermit (.acquired key a) (.openGuard key a)
  | work {key a} (step : ℕ) : LockPermit (.holding key a) (.work step)
  | lost {key a} : LockPermit (.holding key a) (.lost a)
  | get {key a} : LockPermit (.holding key a) (.get key)
  | setLost {key a} : LockPermit (.holding key a) (.setLost a)
  | clearInterval {key a} : LockPermit (.holding key a) (.clearInterval a)
  | release {key a} : LockPermit (.holding key a) (.release key a)
  | renew {key a} (ttlMs : ℕ) : LockPermit (.renewing key a) (.renew key a ttlMs)
  | markLost {key a} : LockPermit (.renewing key a) (.setLost a)

def LockPhase.next : LockPhase → (op : LockOp) → lockApi.Answer op → LockPhase
  | .start key, .token, .ok a => .trying key a
  | .trying key a, .set .., .ok true => .acquired key a
  | .trying key a, .set .., .error _ => .unsure key a
  | .acquired key a, _, _ => .holding key a
  | .holding key a, .release .., .ok _ => .released key a
  | .holding key a, .release .., .error _ => .unsure key a
  | φ, _, _ => φ

/-- Every answer but the failure of a command that needs no Redis. -/
def LockOp.Answered (op : LockOp) (r : lockApi.Answer op) : Prop :=
  op.isRedis = true ∨ ∃ v, r = .ok v

def lockProtocol : Protocol lockApi LockPhase := ⟨LockPermit, LockOp.Answered, LockPhase.next⟩

/-- A caller has left when it cannot hold the key, or does not know. -/
inductive LockPhase.Left (key : String) : LockPhase → Prop where
  | trying (a : Token) : Left key (.trying key a)
  | released (a : Token) : Left key (.released key a)
  | unsure (a : Token) : Left key (.unsure key a)

section Walk

variable {options : WorkspaceQuotaLockOptions} {key : String} {a : Token}

theorem LockOp.answered_ok {op : LockOp} (h : op.isRedis = false) {e : Failure} :
    ¬ op.Answered (.error e) := by
  rintro (hr | ⟨v, hv⟩)
  · rw [h] at hr
    cases hr
  · cases hv

private theorem local_tracks {α : Type} {φ : LockPhase} {op : LockOp}
    {f : lockApi.Reply op → LockPromise α} {Q : α → LockPhase → Prop}
    {X : Failure → LockPhase → Prop} (hp : LockPermit φ op) (hl : op.isRedis = false)
    (hv : ∀ v, lockProtocol.Tracks (f v) (φ.next op (.ok v)) Q X) :
    lockProtocol.Tracks ((Prog.perform (I := lockApi) op).bind f) φ Q X :=
  Protocol.tracks_step hp (fun v _ => hv v) fun _ he => (LockOp.answered_ok hl he).elim

private theorem redis_tracks {φ : LockPhase} {op : LockOp} {action : String}
    {Q : op.Reply → LockPhase → Prop} {X : Failure → LockPhase → Prop} (hp : LockPermit φ op)
    (hv : ∀ v, Q v (φ.next op (.ok v))) (he : ∀ e e', X e (φ.next op (.error e'))) :
    lockProtocol.Tracks (redis op action) φ Q X := by
  refine (Protocol.tracks_tryCatch ..).mpr ((Protocol.tracks_perform φ).mpr ⟨hp, ?_, ?_⟩)
  · exact fun v _ => hv v
  · exact fun e _ => he _ e

private theorem acquire_tracks (deadline : Time) (turns : ℕ) :
    lockProtocol.Tracks (acquire options key a deadline turns) (.trying key a)
      (fun ok φ => φ = if ok then .acquired key a else .trying key a)
      (fun _ φ => φ = .unsure key a) := by
  induction turns with
  | zero => exact rfl
  | succ turns ih =>
    refine local_tracks .now rfl fun (now : Time) => ?_
    show lockProtocol.Tracks (ite _ _ _) _ _ _
    split
    · refine (Protocol.tracks_bind ..).mpr (redis_tracks (.set _) (fun ok => ?_) fun _ _ => rfl)
      cases ok with
      | true => exact rfl
      | false =>
        refine local_tracks .now rfl fun (now : Time) => ?_
        exact local_tracks (.sleep _) rfl fun _ => ih
    · exact rfl

private theorem assertHeld_tracks : lockProtocol.Tracks (assertHeld key a) (.holding key a)
    (fun _ φ => φ = .holding key a) (fun _ φ => φ = .holding key a) := by
  refine local_tracks .lost rfl fun lost => ?_
  cases lost with
  | true => exact rfl
  | false =>
    refine (Protocol.tracks_bind ..).mpr (redis_tracks .get (fun current => ?_) fun _ _ => rfl)
    show lockProtocol.Tracks (ite _ _ _) _ _ _
    split
    · exact rfl
    · exact local_tracks .setLost rfl fun _ => rfl

private theorem callbackWith_tracks {α : Type} (callback : Prog callbackApi α) :
    lockProtocol.Tracks (callbackWith key a callback) (.holding key a)
      (fun _ φ => φ = .holding key a) (fun _ φ => φ = .holding key a) := by
  induction callback with
  | pure v => exact rfl
  | throw e => exact rfl
  | await op next ih =>
    cases op with
    | assertHeld =>
      refine (Protocol.tracks_bind ..).mpr ((Protocol.tracks_attempt ..).mpr
        (assertHeld_tracks.mono ?_ ?_))
      · rintro v φ rfl
        exact ih (.ok v)
      · rintro e φ rfl
        exact ih (.error e)
    | work step => exact ⟨.work step, fun r _ => ih r⟩

private theorem release_tracks {Q : Unit → LockPhase → Prop} {X : Failure → LockPhase → Prop}
    (h : ∀ φ, φ.Left key → Q () φ) :
    lockProtocol.Tracks (do
      let _ ← (Prog.perform (I := lockApi) (.release key a)).attempt
      return ()) (.holding key a) Q X := by
  refine (Protocol.tracks_bind ..).mpr (Protocol.tracks_attempted .release fun r _ => ?_)
  cases r with
  | ok v => exact h _ (.released a)
  | error e => exact h _ (.unsure a)

theorem withLock_tracks {α : Type} (workspaceId : ObjectId) (callback : Prog callbackApi α) :
    lockProtocol.Tracks (withLock options workspaceId callback) (.start (quotaKey workspaceId))
      (fun _ φ => φ.Left (quotaKey workspaceId)) (fun _ φ => φ.Left (quotaKey workspaceId)) := by
  refine local_tracks .token rfl fun (token : Token) => ?_
  refine local_tracks .now rfl fun (now : Time) => ?_
  refine (Protocol.tracks_bind ..).mpr ((Protocol.tracks_attempt ..).mpr
    ((acquire_tracks _ _).mono ?_ ?_))
  · rintro ok φ rfl
    cases ok with
    | false => exact .trying token
    | true =>
      have hheld : lockProtocol.Tracks (do
          let _ : Unit ← .perform (I := lockApi) (.openGuard (quotaKey workspaceId) token)
          (callbackWith (quotaKey workspaceId) token callback).tryFinally
            (.perform (I := lockApi) (.clearInterval token))) (.acquired (quotaKey workspaceId) token)
          (fun _ φ => φ = .holding (quotaKey workspaceId) token)
          (fun _ φ => φ = .holding (quotaKey workspaceId) token) := by
        refine local_tracks .openGuard rfl fun _ => (Protocol.tracks_tryFinally ..).mpr ?_
        refine (callbackWith_tracks callback).mono ?_ ?_
        · rintro v φ rfl
          exact (Protocol.tracks_perform _).mpr ⟨.clearInterval, fun _ _ => rfl, fun _ _ => rfl⟩
        · rintro e φ rfl
          exact (Protocol.tracks_perform _).mpr ⟨.clearInterval, fun _ _ => rfl, fun _ _ => rfl⟩
      refine (Protocol.tracks_tryFinally ..).mpr ((Protocol.tracks_tryCatch ..).mpr
        (hheld.mono ?_ ?_))
      · rintro v φ rfl
        exact release_tracks fun _ h => h
      · rintro e φ rfl
        exact release_tracks fun _ h => h
  · rintro e φ rfl
    exact .unsure token

private theorem renew_tracks : lockProtocol.Tracks (renew options key a) (.renewing key a)
    (fun _ _ => True) (fun _ _ => True) := by
  have hlost : lockProtocol.Tracks (.perform (LockOp.setLost a)) (.renewing key a)
      (fun _ _ => True) (fun _ _ => True) :=
    (Protocol.tracks_perform _).mpr ⟨.markLost, fun _ _ => trivial, fun _ _ => trivial⟩
  refine (Protocol.tracks_bind ..).mpr (Protocol.tracks_attempted (.renew _) fun r _ => ?_)
  match r with
  | .ok true => trivial
  | .ok false => exact hlost
  | .error _ => exact hlost

def LockCall.start {α : Type} : LockCall α → LockPhase
  | .withLock workspaceId _ => .start (quotaKey workspaceId)
  | .renew key token => .renewing key token

/-- A `withLock` ends where its caller has left. -/
def LockCall.Ended {α : Type} : LockCall α → LockPhase → Prop
  | .withLock workspaceId _, φ => φ.Left (quotaKey workspaceId)
  | .renew .., _ => True

def lockConformance (options : WorkspaceQuotaLockOptions) (α : Type) :
    Conformance (locking options α) lockProtocol where
  start := LockCall.start
  crash := id
  returns call _ φ := call.Ended φ
  throws call _ φ := call.Ended φ
  body_tracks call := by
    cases call with
    | withLock workspaceId callback =>
      exact (Protocol.tracks_bind ..).mpr (withLock_tracks workspaceId callback)
    | renew key token => exact (Protocol.tracks_bind ..).mpr renew_tracks
  possible op r h := by
    obtain ⟨t, call, w, o, ho, rfl⟩ := h
    cases o with
    | done =>
      cases op <;> first | exact .inl rfl | exact .inr ⟨_, rfl⟩
    | refused e => exact .inl ho
    | unacknowledged e => exact .inl ho

end Walk

/-- The caller that a token was made for. -/
def LockWorld.caller? (w : LockWorld) (a : Token) : Option ThreadId := w.tokens[a]?

/-- What a step of `m` leaves alone: tokens belong to their callers, and only a caller puts its
token into a key or into a guard. -/
structure LockMoves (m : Option ThreadId) (w w' : LockWorld) : Prop where
  tokens : ∀ a u, w.caller? a = some u → w'.caller? a = some u
  made : ∀ a u, w'.caller? a = some u → w.caller? a = some u ∨ m = some u
  acquired : ∀ x ∈ w.acquired, x ∈ w'.acquired
  live : ∀ key a, w'.live key = some a →
    w.live key = some a ∨ ∃ u, m = some u ∧ w.caller? a = some u
  guards : ∀ g' ∈ w'.guards, (∃ g ∈ w.guards, g.token = g'.token) ∨
    ∃ u, m = some u ∧ w.caller? g'.token = some u

theorem LockMoves.refl (m : Option ThreadId) (w : LockWorld) : LockMoves m w w :=
  ⟨fun _ _ h => h, fun _ _ h => .inl h, fun _ h => h, fun _ _ h => .inl h,
    fun g hg => .inl ⟨g, hg, rfl⟩⟩

/-- Every token in use has its caller, and every guard its own token. -/
structure LockShared (n : ℕ) (w : LockWorld) : Prop where
  callers : ∀ a u, w.caller? a = some u → u < n
  held : ∀ key a, w.live key = some a → ∃ u, w.caller? a = some u
  known : ∀ g ∈ w.guards, ∃ u, w.caller? g.token = some u
  distinct : (w.guards.map (·.token)).Nodup

/-- The one token that the thread has made. -/
def LockWorld.Owns (w : LockWorld) (t : ThreadId) (a : Token) : Prop :=
  ∀ b, w.caller? b = some t ↔ b = a

def LockPhase.Own (reachable : ThreadId → Prop) (t : ThreadId) (w : LockWorld) :
    LockPhase → Prop
  | .start _ => ∀ a, w.caller? a ≠ some t
  | .trying key a => w.Owns t a ∧ w.live key ≠ some a ∧ ∀ g ∈ w.guards, g.token ≠ a
  | .acquired key a => w.Owns t a ∧ (key, a) ∈ w.acquired ∧ ∀ g ∈ w.guards, g.token ≠ a
  | .holding key a => w.Owns t a ∧ (key, a) ∈ w.acquired
  | .released key a => w.Owns t a ∧ w.live key ≠ some a
  | .unsure _ a => w.Owns t a ∧ ¬ reachable t
  | .renewing _ a => ∃ u, w.caller? a = some u

section Steps

variable {reachable : ThreadId → Prop} {t u : ThreadId} {w w' : LockWorld} {φ : LockPhase}

private theorem LockWorld.Owns.kept {a : Token} {m : Option ThreadId} (h : w.Owns u a)
    (hm : LockMoves m w w') (hu : m ≠ some u) : w'.Owns u a := by
  refine fun b => ⟨fun hb => (h b).mp ((hm.made b u hb).resolve_right hu), fun hb => ?_⟩
  exact hm.tokens b u ((h b).mpr hb)

private theorem live_kept {key : String} {a : Token} {m : Option ThreadId} (h : w.Owns u a)
    (hm : LockMoves m w w') (hu : m ≠ some u) (hl : w.live key ≠ some a) :
    w'.live key ≠ some a := by
  intro hl'
  rcases hm.live key a hl' with hl' | ⟨v, rfl, hv⟩
  · exact hl hl'
  · rw [(h a).mpr rfl] at hv
    exact hu hv.symm

private theorem guards_kept {a : Token} {m : Option ThreadId} (h : w.Owns u a)
    (hm : LockMoves m w w') (hu : m ≠ some u) (hg : ∀ g ∈ w.guards, g.token ≠ a) :
    ∀ g ∈ w'.guards, g.token ≠ a := by
  rintro g' hg' rfl
  rcases hm.guards g' hg' with ⟨g, hmem, he⟩ | ⟨v, rfl, hv⟩
  · exact hg g hmem he
  · rw [(h _).mpr rfl] at hv
    exact hu hv.symm

/-- What a thread knows survives the steps of the others. -/
theorem LockPhase.Own.kept {m : Option ThreadId} (h : φ.Own reachable u w)
    (hm : LockMoves m w w') (hu : m ≠ some u) : φ.Own reachable u w' := by
  cases φ with
  | start key => exact fun a ha => h a ((hm.made a u ha).resolve_right hu)
  | trying key a =>
    exact ⟨h.1.kept hm hu, live_kept h.1 hm hu h.2.1, guards_kept h.1 hm hu h.2.2⟩
  | acquired key a =>
    exact ⟨h.1.kept hm hu, hm.acquired _ h.2.1, guards_kept h.1 hm hu h.2.2⟩
  | holding key a => exact ⟨h.1.kept hm hu, hm.acquired _ h.2⟩
  | released key a => exact ⟨h.1.kept hm hu, live_kept h.1 hm hu h.2⟩
  | unsure key a => exact ⟨h.1.kept hm hu, h.2⟩
  | renewing key a =>
    obtain ⟨v, hv⟩ := h
    exact ⟨v, hm.tokens a v hv⟩

@[simp] theorem LockWorld.live_update (w : LockWorld) (key key' : String)
    (entry : Option RedisEntry) (acquired : List (String × Token)) :
    { w with keys := Function.update w.keys key entry, acquired }.live key' =
      if key' = key then
        entry.bind fun e => if w.clock < e.expiresAt then some e.value else none
      else w.live key' := by
  simp only [LockWorld.live, Function.update_apply]
  split_ifs <;> rfl

/-- Only keys change, and only to the token of the caller. -/
private theorem moves_update {key : String} {a : Token} {entry : Option RedisEntry}
    {acquired : List (String × Token)} (ht : ∃ u, w.caller? a = some u ∧ (u = t ∨ w.live key = some a))
    (he : ∀ e, entry = some e → e.value = a) (ha : ∀ x ∈ w.acquired, x ∈ acquired) :
    LockMoves (some t) w { w with keys := Function.update w.keys key entry, acquired } := by
  refine ⟨fun _ _ h => h, fun _ _ h => .inl h, ha, fun key' b hb => ?_, fun g hg => .inl ⟨g, hg, rfl⟩⟩
  rw [LockWorld.live_update] at hb
  split_ifs at hb with hk
  · subst hk
    obtain ⟨e, rfl, hlive⟩ := Option.bind_eq_some_iff.mp hb
    split_ifs at hlive
    cases Option.some.inj hlive
    rw [he e rfl]
    obtain ⟨u, hu, rfl | hl⟩ := ht
    · exact .inr ⟨u, rfl, hu⟩
    · exact .inl hl
  · exact .inl hb

private theorem moves_modifyGuard (a : Token) {f : QuotaGuard → QuotaGuard}
    (hf : ∀ g, (f g).token = g.token) (m : Option ThreadId) : LockMoves m w (w.modifyGuard a f) := by
  refine ⟨fun _ _ h => h, fun _ _ h => .inl h, fun _ h => h, fun _ _ h => .inl h, ?_⟩
  intro g' hg'
  obtain ⟨g, hg, rfl⟩ := List.mem_map.mp hg'
  refine .inl ⟨g, hg, ?_⟩
  split_ifs
  · exact (hf g).symm
  · rfl

private theorem shared_modifyGuard {n : ℕ} (h : LockShared n w) (a : Token)
    {f : QuotaGuard → QuotaGuard} (hf : ∀ g, (f g).token = g.token) :
    LockShared n (w.modifyGuard a f) := by
  have hg : ∀ g : QuotaGuard, (if g.token == a then f g else g).token = g.token := by
    intro g
    split_ifs
    · exact hf g
    · rfl
  refine ⟨h.callers, h.held, ?_, ?_⟩
  · intro g' hg'
    obtain ⟨g, hmem, rfl⟩ := List.mem_map.mp hg'
    rw [hg]
    exact h.known g hmem
  · show ((w.guards.map _).map _).Nodup
    rw [List.map_map, Function.comp_def, List.map_congr_left fun g _ => hg g]
    exact h.distinct

/-- What keeps tokens and guards keeps the shared invariant, where new keys hold known tokens. -/
private theorem LockShared.of_moves {n : ℕ} {m : Option ThreadId} (h : LockShared n w)
    (hm : LockMoves m w w') (ht : w'.tokens = w.tokens) (hg : w'.guards = w.guards) :
    LockShared n w' := by
  have hc : ∀ a, w'.caller? a = w.caller? a := fun a => by rw [LockWorld.caller?, ht]; rfl
  refine ⟨fun a u ha => h.callers a u (hc a ▸ ha), fun key a hl => ?_, ?_, ?_⟩
  · rcases hm.live key a hl with hl | ⟨u, -, hu⟩
    · obtain ⟨u, hu⟩ := h.held key a hl
      exact ⟨u, (hc a).trans hu⟩
    · exact ⟨u, (hc a).trans hu⟩
  · intro g hmem
    obtain ⟨u, hu⟩ := h.known g (hg ▸ hmem)
    exact ⟨u, (hc _).trans hu⟩
  · rw [hg]
    exact h.distinct

/-- A step of the caller keeps the invariant, gives the next phase what it owns and moves as it
may. -/
structure LockStep (reachable : ThreadId → Prop) (n : ℕ) (t : ThreadId) (w w' : LockWorld)
    (φ' : LockPhase) : Prop where
  shared : LockShared n w'
  own : φ'.Own reachable t w'
  moves : LockMoves (some t) w w'

private theorem LockStep.same {n : ℕ} {φ' : LockPhase} (h : LockShared n w)
    (hown : φ'.Own reachable t w) : LockStep reachable n t w w φ' := ⟨h, hown, .refl _ w⟩

private theorem modifyGuard_step {n : ℕ} {a : Token} {f : QuotaGuard → QuotaGuard}
    {φ' : LockPhase} (h : LockShared n w) (hf : ∀ g, (f g).token = g.token)
    (hown : φ'.Own reachable t (w.modifyGuard a f)) :
    LockStep reachable n t w (w.modifyGuard a f) φ' :=
  ⟨shared_modifyGuard h a hf, hown, moves_modifyGuard a hf _⟩

private theorem token_step {n : ℕ} {key : String} (h : LockShared n w) (hn : t < n)
    (hown : (LockPhase.start key).Own reachable t w) :
    LockStep reachable n t w { w with tokens := w.tokens ++ [t] } (.trying key w.tokens.length) := by
  have hget : ∀ b u, (w.tokens ++ [t])[b]? = some u ↔
      w.caller? b = some u ∨ b = w.tokens.length ∧ u = t := by
    intro b u
    rcases Nat.lt_trichotomy b w.tokens.length with hb | hb | hb
    · rw [List.getElem?_append_left hb]
      exact ⟨.inl, fun h => h.resolve_right fun h => absurd h.1 (Nat.ne_of_lt hb)⟩
    · subst hb
      simp [LockWorld.caller?, eq_comm]
    · have hlen : (w.tokens ++ [t]).length ≤ b := by
        rw [List.length_append]
        exact hb
      rw [List.getElem?_eq_none hlen, LockWorld.caller?, List.getElem?_eq_none (Nat.le_of_lt hb)]
      simp [Nat.ne_of_gt hb]
  have hfresh : ∀ u, w.caller? w.tokens.length ≠ some u := by
    intro u hu
    simp [LockWorld.caller?] at hu
  refine ⟨⟨fun a u ha => ?_, fun k a hl => ?_, fun g hg => ?_, h.distinct⟩, ⟨fun b => ?_, ?_, ?_⟩,
    ⟨fun a u ha => (hget a u).mpr (.inl ha), fun a u ha => ?_, fun _ h => h,
      fun _ _ h => .inl h, fun g hg => .inl ⟨g, hg, rfl⟩⟩⟩
  · rcases (hget a u).mp ha with ha | ⟨-, rfl⟩
    · exact h.callers a u ha
    · exact hn
  · obtain ⟨u, hu⟩ := h.held k a hl
    exact ⟨u, (hget a u).mpr (.inl hu)⟩
  · obtain ⟨u, hu⟩ := h.known g hg
    exact ⟨u, (hget _ u).mpr (.inl hu)⟩
  · refine (hget b t).trans ⟨fun hb => ?_, fun hb => .inr ⟨hb, rfl⟩⟩
    exact (hb.resolve_left (hown b)).1
  · intro hl
    obtain ⟨u, hu⟩ := h.held key _ hl
    exact hfresh u hu
  · intro g hg he
    obtain ⟨u, hu⟩ := h.known g hg
    exact hfresh u (he ▸ hu)
  · rcases (hget a u).mp ha with ha | ⟨-, rfl⟩
    · exact .inl ha
    · exact .inr rfl

private theorem openGuard_step {n : ℕ} {key : String} {a : Token} (h : LockShared n w)
    (hown : (LockPhase.acquired key a).Own reachable t w) :
    LockStep reachable n t w { w with guards := w.guards ++ [⟨key, a, false, true⟩] }
      (.holding key a) := by
  obtain ⟨howns, hacq, hnew⟩ := hown
  have hmem : ∀ g, g ∈ w.guards ++ [(⟨key, a, false, true⟩ : QuotaGuard)] →
      g ∈ w.guards ∨ g.token = a := by
    intro g hg
    rcases List.mem_append.mp hg with hg | hg
    · exact .inl hg
    · exact .inr (by rw [List.mem_singleton.mp hg])
  refine ⟨⟨h.callers, h.held, fun g hg => ?_, ?_⟩, ⟨howns, hacq⟩,
    ⟨fun _ _ h => h, fun _ _ h => .inl h, fun _ h => h, fun _ _ h => .inl h, fun g hg => ?_⟩⟩
  · rcases hmem g hg with hg | rfl
    · exact h.known g hg
    · exact ⟨t, (howns _).mpr rfl⟩
  · rw [List.map_append, List.nodup_append]
    refine ⟨h.distinct, by simp, fun b hb b' hb' he => ?_⟩
    obtain ⟨g, hg, rfl⟩ := List.mem_map.mp hb
    simp only [List.map_cons, List.map_nil, List.mem_singleton] at hb'
    exact hnew g hg (he.trans hb')
  · rcases hmem g hg with hg | rfl
    · exact .inl ⟨g, hg, rfl⟩
    · exact .inr ⟨t, rfl, (howns _).mpr rfl⟩

private theorem elapse_step {n : ℕ} {clock : Time} (m : Option ThreadId) (h : LockShared n w)
    (hc : w.clock ≤ clock) :
    LockShared n { w with clock } ∧ LockMoves m w { w with clock } := by
  have hlive : ∀ key a, ({ w with clock } : LockWorld).live key = some a → w.live key = some a := by
    intro key a hl
    obtain ⟨e, he, hl⟩ := Option.bind_eq_some_iff.mp hl
    refine Option.bind_eq_some_iff.mpr ⟨e, he, ?_⟩
    split_ifs at hl with hlt
    rw [if_pos (Nat.lt_of_le_of_lt hc hlt)]
    exact hl
  have hm : LockMoves m w { w with clock } :=
    ⟨fun _ _ h => h, fun _ _ h => .inl h, fun _ h => h, fun _ _ hl => .inl (hlive _ _ hl),
      fun g hg => .inl ⟨g, hg, rfl⟩⟩
  exact ⟨h.of_moves hm rfl rfl, hm⟩

private theorem update_step {n : ℕ} {key : String} {a : Token} {entry : Option RedisEntry}
    {acquired : List (String × Token)} {φ' : LockPhase} (h : LockShared n w)
    (ht : ∃ u, w.caller? a = some u ∧ (u = t ∨ w.live key = some a))
    (he : ∀ e, entry = some e → e.value = a) (ha : ∀ x ∈ w.acquired, x ∈ acquired)
    (hown : φ'.Own reachable t { w with keys := Function.update w.keys key entry, acquired }) :
    LockStep reachable n t w { w with keys := Function.update w.keys key entry, acquired } φ' :=
  have hm := moves_update ht he ha
  ⟨h.of_moves hm rfl rfl, hown, hm⟩

/-- The step lemma of a command that is carried out. -/
private theorem exec_step {n : ℕ} {op : LockOp} (hp : LockPermit φ op) (h : LockShared n w)
    (hn : t < n) (hown : φ.Own reachable t w) :
    LockStep reachable n t w (LockWorld.exec t op w).2
      (φ.next op (LockWorld.exec t op w).1) := by
  cases hp with
  | token => exact token_step h hn hown
  | now => exact .same h hown
  | @sleep key a wake =>
    obtain ⟨hs, hm⟩ := elapse_step (some t) h (Nat.le_max_left w.clock wake)
    refine ⟨hs, ⟨hown.1, fun hl => ?_, hown.2.2⟩, hm⟩
    rcases hm.live key a hl with hl | ⟨u, -, -⟩
    · exact hown.2.1 hl
    · obtain ⟨e, he, hl⟩ := Option.bind_eq_some_iff.mp hl
      refine hown.2.1 (Option.bind_eq_some_iff.mpr ⟨e, he, ?_⟩)
      split_ifs at hl with hlt
      rw [if_pos (Nat.lt_of_le_of_lt (Nat.le_max_left w.clock wake) hlt)]
      exact hl
  | @set key a ttlMs =>
    simp only [LockWorld.exec]
    split_ifs with hl
    · refine update_step h ⟨t, (hown.1 a).mpr rfl, .inl rfl⟩ ?_ (fun x hx => by simp [hx])
        ⟨hown.1, by simp, hown.2.2⟩
      rintro e he
      cases Option.some.inj he
      rfl
    · exact .same h hown
  | openGuard => exact openGuard_step h hown
  | work step => exact .same h hown
  | lost => exact .same h hown
  | get => exact .same h hown
  | setLost => exact modifyGuard_step h (fun _ => rfl) hown
  | clearInterval => exact modifyGuard_step h (fun _ => rfl) hown
  | @release key a =>
    simp only [LockWorld.exec]
    split_ifs with hl
    · refine update_step h ⟨t, (hown.1 a).mpr rfl, .inl rfl⟩ (fun e he => by cases he)
        (fun x hx => hx) ⟨hown.1, ?_⟩
      simp
    · exact .same h ⟨hown.1, hl⟩
  | @renew key a ttlMs =>
    simp only [LockWorld.exec]
    obtain ⟨u, hu⟩ := hown
    split_ifs with hl
    · refine update_step h ⟨u, hu, .inr hl⟩ ?_ (fun x hx => hx) ⟨u, hu⟩
      rintro e he
      cases Option.some.inj he
      rfl
    · exact .same h ⟨u, hu⟩
  | markLost => exact modifyGuard_step h (fun _ => rfl) hown

/-- The step lemma of a command whose reply is a failure, whether Redis carried it out or not. -/
private theorem failed_step {n : ℕ} {op : LockOp} {e : Failure} (hp : LockPermit φ op)
    (hop : op.isRedis = true) (hr : ¬ reachable t) (h : LockShared n w) (hn : t < n)
    (hown : φ.Own reachable t w) :
    LockStep reachable n t w w (φ.next op (.error e)) ∧
      LockStep reachable n t w (LockWorld.exec t op w).2 (φ.next op (.error e)) := by
  have hexec := exec_step hp h hn hown
  cases hp with
  | set =>
    refine ⟨.same h ⟨hown.1, hr⟩, hexec.shared, ⟨?_, hr⟩, hexec.moves⟩
    simp only [LockWorld.exec]
    split_ifs
    · exact hown.1
    · exact hown.1
  | get => exact ⟨.same h hown, .same h hown⟩
  | release =>
    refine ⟨.same h ⟨hown.1, hr⟩, hexec.shared, ⟨?_, hr⟩, hexec.moves⟩
    simp only [LockWorld.exec]
    split_ifs
    · exact hown.1
    · exact hown.1
  | renew => exact ⟨.same h hown, hexec⟩
  | _ => cases hop

end Steps

/-- The phases of a call: a `withLock` has one key, and a timer only renews. -/
def LockCall.Follows {α : Type} : LockCall α → LockPhase → Prop
  | .renew key a, φ => φ = .renewing key a
  | .withLock workspaceId _, .start key | .withLock workspaceId _, .trying key _
  | .withLock workspaceId _, .acquired key _ | .withLock workspaceId _, .holding key _
  | .withLock workspaceId _, .released key _ | .withLock workspaceId _, .unsure key _ =>
    key = quotaKey workspaceId
  | .withLock .., .renewing .. => False

private theorem LockCall.Follows.next {α : Type} {call : LockCall α} {φ : LockPhase} {op : LockOp}
    (h : call.Follows φ) (hp : LockPermit φ op) (r : lockApi.Answer op) :
    call.Follows (φ.next op r) := by
  cases call with
  | renew key a =>
    cases h
    cases hp with
    | renew => exact rfl
    | markLost => exact rfl
  | withLock workspaceId callback =>
    cases hp with
    | token => cases r <;> exact h
    | set =>
      match r with
      | .ok true => exact h
      | .ok false => exact h
      | .error _ => exact h
    | release => cases r <;> exact h
    | renew => exact h.elim
    | markLost => exact h.elim
    | _ => exact h

/-- `reachable` tells for which callers every command reaches Redis and is answered. -/
def lockDiscipline (options : WorkspaceQuotaLockOptions) (α : Type)
    (reachable : ThreadId → Prop) : Discipline (lockConformance options α) where
  ok _ l := ∀ t o, l = .advance t o → reachable t → o = .done
  shared := LockShared
  own t call φ w := φ.Own reachable t w ∧ call.Follows φ
  moves := LockMoves
  spawn n call w h hs := by
    refine ⟨⟨fun a u ha => Nat.lt_succ_of_lt (h.callers a u ha), h.held, h.known, h.distinct⟩, ?_,
      .refl none w⟩
    cases call with
    | withLock workspaceId callback =>
      exact ⟨fun a ha => Nat.lt_irrefl _ (h.callers a n ha), rfl⟩
    | renew key token =>
      obtain ⟨g, hg, hmatch⟩ := List.any_eq_true.mp hs
      simp only [Bool.and_eq_true, beq_iff_eq] at hmatch
      exact ⟨hmatch.1.2 ▸ h.known g hg, rfl⟩
  advance c t o call op next φ ht hok ha h hown hp := by
    have hn : t < c.threads.length := (List.getElem?_eq_some_iff.mp ht).1
    cases o with
    | done =>
      obtain ⟨hs, hown', hm⟩ := exec_step hp h hn hown.1
      exact ⟨hs, ⟨hown', hown.2.next hp _⟩, hm⟩
    | refused e =>
      obtain ⟨⟨hs, hown', hm⟩, -⟩ :=
        failed_step (e := e) hp ha (fun hr => by cases hok t _ rfl hr) h hn hown.1
      exact ⟨hs, ⟨hown', hown.2.next hp _⟩, hm⟩
    | unacknowledged e =>
      obtain ⟨-, hs, hown', hm⟩ :=
        failed_step (e := e) hp ha (fun hr => by cases hok t _ rfl hr) h hn hown.1
      exact ⟨hs, ⟨hown', hown.2.next hp _⟩, hm⟩
  crash _ c t call p φ _ _ h hown := ⟨h, hown, .refl _ _⟩
  act c ms w _ ha h := by
    cases Option.some.inj ha
    exact elapse_step none h (Nat.le_add_right _ _)
  stable n m w w' u call φ _ _ hm hu _ hown := ⟨hown.1.kept hm hu, hown.2⟩

section Exclusion

variable {options : WorkspaceQuotaLockOptions} {α : Type}

/-- Before the first call. -/
structure LockWorld.Initial (w : LockWorld) : Prop where
  keys : ∀ key, w.keys key = none
  guards : w.guards = []
  tokens : w.tokens = []

theorem LockWorld.Initial.shared {w : LockWorld} (h : w.Initial) : LockShared 0 w := by
  refine ⟨fun a u ha => ?_, fun key a hl => ?_, fun g hg => ?_, ?_⟩
  · simp [LockWorld.caller?, h.tokens] at ha
  · simp [LockWorld.live, h.keys] at hl
  · simp [h.guards] at hg
  · simp [h.guards]

/-- `assertHeld` of this guard, run at this instant, succeeds. -/
def QuotaGuard.Passes (w : LockWorld) (g : QuotaGuard) : Prop :=
  ∃ t, ((assertHeld g.key g.token).evaluate (LockWorld.exec t) w).1 = .ok ()

theorem QuotaGuard.Passes.live {w : LockWorld} {g : QuotaGuard} (h : g.Passes w) :
    w.live g.key = some g.token := by
  obtain ⟨t, h⟩ := h
  change (Prog.evaluate (I := lockApi) (LockWorld.exec t)
    (ite ((w.guards.find? (·.token == g.token)).any (·.lost) = true) _ _) w).1 = _ at h
  split_ifs at h with hlost
  · cases h
  · change (Prog.evaluate (I := lockApi) (LockWorld.exec t)
      (ite (verified g.token (w.live g.key) = true) _ _) w).1 = _ at h
    split_ifs at h with hv
    · exact beq_iff_eq.mp hv
    · cases h

/-- The caller that a thread acts for: a timer acts for the caller of its guard. -/
def callerOf (c : Locking α) (t : ThreadId) : Option ThreadId :=
  c.threads[t]?.bind fun th =>
    match th.entry with
    | .withLock .. => some t
    | .renew _ token => c.state.caller? token

/-- A renewal or a release. -/
def LockOp.isScript : LockOp → Bool
  | .renew .. | .release .. => true
  | _ => false

/-- An operation of the callback, or of the `assertHeld` that it calls. -/
def LockOp.isCallback : LockOp → Bool
  | .work _ | .lost _ | .get _ => true
  | _ => false

/-- A script is about the token of the caller that its thread acts for, and changes only a key
that holds this token. -/
private theorem script_spares {reachable : ThreadId → Prop} {c : Locking α} {t : ThreadId}
    {call : LockCall α} {p : LockPromise (Option α)} {φ : LockPhase} {op : LockOp}
    (hp : LockPermit φ op) (hop : op.isScript = true) (hown : φ.Own reachable t c.state)
    (hfollows : call.Follows φ) (ht : c.threads[t]? = some ⟨call, p, false⟩) :
    ∃ b u, callerOf c t = some u ∧ c.state.caller? b = some u ∧ ∀ key a,
      c.state.live key = some a → a ≠ b → (LockWorld.exec t op c.state).2.live key = some a := by
  cases hp with
  | @release key b =>
    cases call with
    | renew key' a => cases hfollows
    | withLock workspaceId callback =>
      refine ⟨b, t, by simp [callerOf, ht], (hown.1 b).mpr rfl, fun key' a ha hne => ?_⟩
      simp only [LockWorld.exec]
      split_ifs with hl
      · rw [LockWorld.live_update, if_neg]
        · exact ha
        · rintro rfl
          exact hne (Option.some.inj (ha.symm.trans hl))
      · exact ha
  | @renew key b ttlMs =>
    cases call with
    | withLock workspaceId callback => cases hfollows
    | renew key' a =>
      cases hfollows
      obtain ⟨u, hu⟩ := hown
      refine ⟨b, u, by simpa [callerOf, ht] using hu, hu, fun key' a ha hne => ?_⟩
      simp only [LockWorld.exec]
      split_ifs with hl
      · rw [LockWorld.live_update, if_neg]
        · exact ha
        · rintro rfl
          exact hne (Option.some.inj (ha.symm.trans hl))
      · exact ha
  | _ => cases hop

private theorem callback_holds {φ : LockPhase} {op : LockOp} (hp : LockPermit φ op)
    (hop : op.isCallback = true) : ∃ key a, φ = .holding key a := by
  cases hp with
  | work => exact ⟨_, _, rfl⟩
  | lost => exact ⟨_, _, rfl⟩
  | get => exact ⟨_, _, rfl⟩
  | _ => cases hop

variable {w : LockWorld} {c : Locking α} {ls : List (Label lockApi (LockCall α) ℕ)}

private theorem lock_holds (reachable : ThreadId → Prop) (hw : w.Initial)
    (ha : (locking options α).Along (lockDiscipline options α reachable).ok (.initial w) ls)
    (h : (locking options α).play (.initial w) ls = some c) :
    (lockDiscipline options α reachable).Holds c :=
  Discipline.holds_play (Discipline.holds_initial hw.shared) ha h

private theorem along_unreachable (c : Locking α) (ls : List (Label lockApi (LockCall α) ℕ)) :
    (locking options α).Along (lockDiscipline options α fun _ => False).ok c ls :=
  (Machine.along_true c ls).mono fun _ _ _ _ _ _ h => h.elim

private theorem LockShared.one_verifies {n : ℕ} (hs : LockShared n w) {g g' : QuotaGuard}
    (hg : g ∈ w.guards) (hg' : g' ∈ w.guards) (hk : g.key = g'.key) (hp : g.Passes w)
    (hp' : g'.Passes w) : g = g' := by
  have ht : g.token = g'.token := Option.some.inj (hp.live.symm.trans (hk ▸ hp'.live))
  exact List.inj_on_of_nodup_map hs.distinct hg hg' ht

private theorem LockPhase.Left.lost {reachable : ThreadId → Prop} {t : ThreadId} {key : String}
    {φ : LockPhase} (h : φ.Left key) (hown : φ.Own reachable t w) (hr : reachable t) {a : Token}
    (ha : w.caller? a = some t) : w.live key ≠ some a := by
  cases h with
  | trying b => exact (hown.1 a).mp ha ▸ hown.2.1
  | released b => exact (hown.1 a).mp ha ▸ hown.2
  | unsure b => exact absurd hr hown.2

private def checking : Prog callbackApi Unit := do
  .perform (I := callbackApi) .assertHeld
  .perform (I := callbackApi) (.work 0)

private def oneCaller : List (Label lockApi (LockCall Unit) ℕ) :=
  .spawn (.withLock 7 checking) :: .act 3 :: List.replicate 10 (.advance 0 .done)

end Exclusion

end AppBuilder.Sandbox
