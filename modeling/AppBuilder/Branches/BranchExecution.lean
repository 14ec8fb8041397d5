import AppBuilder.Store.Laws

/-! `branches/branchExecution.ts` and `agent/runCancellation.ts`: the execution lease of a
branch, its guard with heartbeat, and the monitor that turns a cancelled run into an abort. -/
namespace AppBuilder.Branches
open Agent Async Store

def DEFAULT_TTL_MS : ℕ := 60000

def runCancelledError : AgentError := { code := .runCancelled, message := "Agent run cancelled" }

def branchExecutionLostError : AgentError :=
  { code := .branchExecutionLost, message := "Branch execution lease was lost" }

/-- `throwIfAborted(signal)` for the signal of a guard. -/
def throwIfAborted (guard : GuardHandle) : Promise Unit := do
  let aborted ← perform (.guardAborted guard.guardId)
  if aborted then .throw runCancelledError else return ()

theorem tracks_throwIfAborted {Φ : Type} {P : Protocol api Φ} (hP : P.possible = Op.Answered)
    {guard : GuardHandle} {φ : Φ} {Q : Unit → Φ → Prop} {X : AgentError → Φ → Prop}
    (hp : P.permits φ (.guardAborted guard.guardId))
    (hQ : Q () (P.next φ (.guardAborted guard.guardId) (.ok false)))
    (hX : X runCancelledError (P.next φ (.guardAborted guard.guardId) (.ok true))) :
    P.Tracks (throwIfAborted guard) φ Q X := by
  refine tracks_memory hP hp rfl fun aborted _ => ?_
  cases aborted
  · exact hQ
  · exact hX

/-- The upsert of the lease document: a duplicate key means that another run holds it. -/
def upsertBranchLease (fields : BranchExecutionLease) (now : Time) :
    Promise (Option BranchExecutionLease) :=
  Prog.tryCatch (do
      let lease ← perform (.upsertLease fields now)
      return some lease)
    fun error => if error.code = .duplicateKey then return none else .throw error

/-- The part of `acquireBranchExecution` after the run was found to have a branch. -/
def acquireBranchLease (run : AgentRun) (workspaceId branchId : ObjectId)
    (baseHeadVersion ttlMs : ℕ) : Promise (Option GuardHandle) := do
  let now ← perform .now
  let lease ← upsertBranchLease
    { _id := 0
      workspaceId
      projectId := run.projectId
      branchId
      runId := run._id
      baseHeadVersion
      acquiredAt := now
      heartbeatAt := now
      expiresAt := now + ttlMs } now
  match lease with
  | none => return none
  | some lease =>
    if lease.runId = run._id then do
      let guard ← perform (.newGuard lease._id run._id branchId ttlMs)
      return some guard
    else return none

def acquireBranchExecution (runId : ObjectId) (ttlMs : ℕ := DEFAULT_TTL_MS) :
    Promise (Option GuardHandle) := do
  let run ← perform (.findRun runId .acquireBranchExecution)
  match run with
  | none => return none
  | some run =>
    match run.workspaceId, run.branchId, run.baseHeadVersion with
    | some workspaceId, some branchId, some baseHeadVersion =>
      acquireBranchLease run workspaceId branchId baseHeadVersion ttlMs
    | _, _, _ => return none

/-- One tick of the heartbeat interval. -/
def heartbeat (guard : GuardHandle) : Promise Unit := do
  let begun ← perform (.beginRenewal guard.guardId)
  if begun then do
    let nextNow ← perform .now
    Prog.tryCatch (do
        let modifiedCount ← perform
          (.renewLease guard.leaseId guard.runId nextNow guard.ttlMs)
        if modifiedCount = 1 then return ()
        else perform (.setGuardLost guard.guardId true))
      fun _ => perform (.setGuardLost guard.guardId true)
    perform (.endRenewal guard.guardId)
  else return ()

/-- `const held = await BranchExecutionLease.exists(..); lost = !held;` -/
def checkStoredLease (guard : GuardHandle) : Promise Bool := do
  let now ← perform .now
  let held ← perform (.leaseHeld guard.leaseId guard.runId now)
  perform (.setGuardLost guard.guardId !held)
  return !held

def assertHeld (guard : GuardHandle) : Promise Unit := do
  throwIfAborted guard
  let lost ← perform (.guardLost guard.guardId)
  let lost ← if lost then (return true) else checkStoredLease guard
  if lost then .throw branchExecutionLostError else throwIfAborted guard

def release (guard : GuardHandle) : Promise Unit := do
  perform (.clearHeartbeat guard.guardId)
  perform (.closeMonitor guard.guardId)
  perform (.deleteLease guard.leaseId guard.runId)

/-- One tick of the cancellation monitor; a failed read is retried at the next one. -/
def checkCancellation (guard : GuardHandle) : Promise Unit := do
  let active ← perform (.monitorActive guard.guardId)
  if active then do
    let status ← (perform (.findRunStatus guard.runId)).attempt
    match status with
    | .ok (some .cancelled) => perform (.abortGuard guard.guardId)
    | _ => return ()
  else return ()

end AppBuilder.Branches
