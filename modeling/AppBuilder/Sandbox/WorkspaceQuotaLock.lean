import AppBuilder.Agent.Types
import AppBuilder.Async.Discipline
import AppBuilder.Sandbox.Errors
import Mathlib.Logic.Function.Basic

/-! `WorkspaceQuotaLock.ts`: a lock in Redis that expires, and its callers under any
interleaving. -/
namespace AppBuilder.Sandbox
open Agent Async

/-- A token that `randomUUID` has made. -/
abbrev Token := ℕ

/-- The variables of one `withLock` call that its guard and its interval share. -/
structure QuotaGuard where
  key : String
  token : Token
  lost : Bool
  renewing : Bool
  deriving DecidableEq

structure RedisEntry where
  value : Token
  expiresAt : Time
  deriving DecidableEq

/-- `tokens` lists the caller of each token that was made, and `acquired` what was acquired with
which token. -/
structure LockWorld where
  clock : Time
  keys : String → Option RedisEntry
  guards : List QuotaGuard
  tokens : List ThreadId
  acquired : List (String × Token)

/-- `set` is `SET key token PX ttl NX`; `renew` and `release` are the two scripts. -/
inductive LockOp where
  | token
  | now
  | sleep (wake : Time)
  | set (key : String) (token : Token) (ttlMs : ℕ)
  | get (key : String)
  | renew (key : String) (token : Token) (ttlMs : ℕ)
  | release (key : String) (token : Token)
  | openGuard (key : String) (token : Token)
  | lost (token : Token)
  | setLost (token : Token)
  | clearInterval (token : Token)
  | work (step : ℕ)
  deriving DecidableEq

def LockOp.Reply : LockOp → Type
  | .token => Token
  | .now => Time
  | .set .. | .renew .. | .release .. | .lost _ => Bool
  | .get _ => Option Token
  | .sleep _ | .openGuard .. | .setLost _ | .clearInterval _ | .work _ => Unit

def LockOp.isRedis : LockOp → Bool
  | .set .. | .get _ | .renew .. | .release .. => true
  | _ => false

abbrev lockApi : Interface := ⟨LockOp, LockOp.Reply, Failure⟩

abbrev LockPromise := Prog lockApi

namespace LockWorld

/-- Redis treats a key as missing once its time to live has passed. -/
def live (w : LockWorld) (key : String) : Option Token :=
  (w.keys key).bind fun entry => if w.clock < entry.expiresAt then some entry.value else none

def modifyGuard (w : LockWorld) (token : Token) (f : QuotaGuard → QuotaGuard) : LockWorld :=
  { w with guards := w.guards.map fun g => if g.token == token then f g else g }

def exec (t : ThreadId) : (op : LockOp) → LockWorld → lockApi.Answer op × LockWorld
  | .token, w => (.ok w.tokens.length, { w with tokens := w.tokens ++ [t] })
  | .now, w => (.ok w.clock, w)
  | .sleep wake, w => (.ok (), { w with clock := max w.clock wake })
  | .set key token ttlMs, w =>
    if w.live key = none then
      (.ok true, { w with
        keys := Function.update w.keys key (some ⟨token, w.clock + ttlMs⟩)
        acquired := (key, token) :: w.acquired })
    else (.ok false, w)
  | .get key, w => (.ok (w.live key), w)
  | .renew key token ttlMs, w =>
    if w.live key = some token then
      (.ok true, { w with keys := Function.update w.keys key (some ⟨token, w.clock + ttlMs⟩) })
    else (.ok false, w)
  | .release key token, w =>
    if w.live key = some token then
      (.ok true, { w with keys := Function.update w.keys key none })
    else (.ok false, w)
  | .openGuard key token, w => (.ok (), { w with guards := w.guards ++ [⟨key, token, false, true⟩] })
  | .lost token, w => (.ok ((w.guards.find? (·.token == token)).any (·.lost)), w)
  | .setLost token, w => (.ok (), w.modifyGuard token fun g => { g with lost := true })
  | .clearInterval token, w =>
    (.ok (), w.modifyGuard token fun g => { g with renewing := false })
  | .work _, w => (.ok (), w)

end LockWorld

structure WorkspaceQuotaLockOptions where
  ttlMs : ℕ
  waitMs : ℕ

def unavailable (message : String) : Failure := .sandbox ⟨.schedulerUnavailable, message, true, none⟩

def quotaKey (workspaceId : ObjectId) : String := "sandbox-quota:" ++ toString workspaceId

/-- `this.redis(operation, action)`. -/
def redis (op : LockOp) (action : String) : LockPromise op.Reply :=
  (Prog.perform (I := lockApi) op).tryCatch fun _ =>
    .throw (unavailable ("Workspace quota lock " ++ action ++ " failed"))

/-- The loop that tries to acquire the key. Every turn sleeps for a millisecond at least, so that
the deadline has passed when no turn is left. -/
def acquire (options : WorkspaceQuotaLockOptions) (key : String) (token : Token)
    (deadline : Time) : ℕ → LockPromise Bool
  | 0 => return false
  | turns + 1 => do
    let now : Time ← .perform (I := lockApi) .now
    if now ≤ deadline then
      let acquired : Bool ← redis (.set key token options.ttlMs) "acquire"
      if acquired then return true
      let now : Time ← .perform (I := lockApi) .now
      let _ : Unit ← .perform (I := lockApi) (.sleep (now + min 25 (max 1 (deadline - now))))
      acquire options key token deadline turns
    else return false

/-- One call of the interval. -/
def renew (options : WorkspaceQuotaLockOptions) (key : String) (token : Token) :
    LockPromise Unit := do
  let result ← (Prog.perform (I := lockApi) (.renew key token options.ttlMs)).attempt
  match result with
  | .ok true => return ()
  | _ => .perform (I := lockApi) (.setLost token)

def lockLost : Failure := unavailable "Workspace quota lock was lost"

/-- The check of `assertHeld`. -/
def verified (token : Token) (current : Option Token) : Bool := current == some token

def assertHeld (key : String) (token : Token) : LockPromise Unit := do
  let lost : Bool ← .perform (I := lockApi) (.lost token)
  if lost then .throw lockLost
  else
    let current : Option Token ← redis (.get key) "verify"
    if verified token current then return ()
    else
      let _ : Unit ← .perform (I := lockApi) (.setLost token)
      .throw lockLost

/-- What a callback may do: its own work, and `guard.assertHeld()`. -/
inductive CallbackOp where
  | assertHeld
  | work (step : ℕ)

abbrev callbackApi : Interface := ⟨CallbackOp, fun _ => Unit, Failure⟩

/-- A callback that was given the guard of this key and token. -/
def callbackWith {α : Type} (key : String) (token : Token) : Prog callbackApi α → LockPromise α
  | .pure a => .pure a
  | .throw e => .throw e
  | .await .assertHeld next =>
    (assertHeld key token).attempt.bind fun r => callbackWith key token (next r)
  | .await (.work step) next =>
    .await (I := lockApi) (.work step) fun r => callbackWith key token (next r)

/-- The `catch` clause of `withLock`. -/
def asSandboxError : Failure → Failure
  | .sandbox error => .sandbox error
  | .duplicateKey | .other => unavailable "Workspace quota scheduler is unavailable"

def withLock {α : Type} (options : WorkspaceQuotaLockOptions) (workspaceId : ObjectId)
    (callback : Prog callbackApi α) : LockPromise α := do
  let key := quotaKey workspaceId
  let token : Token ← .perform (I := lockApi) .token
  let now : Time ← .perform (I := lockApi) .now
  let deadline := now + options.waitMs
  let acquired ← (acquire options key token deadline (options.waitMs + 1)).attempt
  match acquired with
  | .error e => .throw (asSandboxError e)
  | .ok false => .throw (unavailable "Workspace quota lock timed out")
  | .ok true =>
    let held : LockPromise α := do
      let _ : Unit ← .perform (I := lockApi) (.openGuard key token)
      (callbackWith key token callback).tryFinally (.perform (I := lockApi) (.clearInterval token))
    let caught := held.tryCatch fun e => .throw (asSandboxError e)
    -- the `finally` clause: a release that fails is ignored
    caught.tryFinally do
      let _ ← (Prog.perform (I := lockApi) (.release key token)).attempt
      return ()

end AppBuilder.Sandbox
