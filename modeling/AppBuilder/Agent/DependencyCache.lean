import AppBuilder.Encoding.Json
import Mathlib.Logic.Function.Basic

/-! `agent/validation/dependencyCache.ts`: calls of `prepare` from several processes, beside the
removals of `cacheCleanup.ts`, one awaited operation at a time. -/
namespace AppBuilder.Agent.Validation
namespace DependencyCache
open Encoding

abbrev Fingerprint := Text

abbrev Workspace := Text

abbrev Time := ℕ

/-- The tree below a `node_modules`: a whole installation, or some of its files. -/
inductive Packages where
  | whole (fingerprint : Fingerprint)
  | part
  deriving DecidableEq, Repr

/-- A directory of the cache. `complete.json` tells when it was used last, unless it is being
written. -/
structure Folder where
  complete : Option (Option Time)
  nodeModules : Option Packages
  deriving DecidableEq, Repr

def Folder.empty : Folder := ⟨none, none⟩

inductive CacheUse where
  | hit
  | miss
  deriving DecidableEq, Repr

inductive PrepareError where
  | filesystem
  | install
  | noNodeModules
  | timedOut
  deriving DecidableEq, Repr

abbrev Outcome := Except PrepareError CacheUse

/-- The operation that a call of `prepare` awaits. -/
inductive Stage where
  | makeDirectories
  | lookComplete
  | lookModules
  | openLock
  | waitComplete
  | waitModules
  | delay
  | lockedComplete
  | lockedModules
  | makeStaging
  | install
  | stagedModules
  | stageComplete
  | removeEntry
  | rename
  | mark
  | markWrite
  | link (cache : CacheUse)
  | removeStaging (outcome : Outcome)
  | closeLock (outcome : Outcome)
  | unlock (outcome : Outcome)
  | settled (outcome : Outcome)
  deriving DecidableEq, Repr

/-- `holding` tells that the lock file is there and was created by this call. -/
structure Call where
  fingerprint : Fingerprint
  workspacePath : Workspace
  stage : Stage
  startedAt : Time
  holding : Bool
  stagingPath : Option ℕ
  crashed : Bool
  deriving DecidableEq, Repr

/-- What `removeIfUnlocked` awaits. -/
inductive SweepStage where
  | checkLock
  | readEntry
  | recheckLock
  | remove
  | settled
  deriving DecidableEq, Repr

structure Sweep where
  name : Fingerprint
  lastUsedAt : Time
  stage : SweepStage
  crashed : Bool
  deriving DecidableEq, Repr

/-- `links` tells which workspaces have a `node_modules`, and to which entry it leads; `discarded`
workspaces have been removed. -/
structure Cache where
  clock : Time
  entries : Fingerprint → Option Folder
  locks : Fingerprint → Bool
  staging : ℕ → Option Folder
  nextStaging : ℕ
  links : List (Workspace × Fingerprint)
  discarded : List Workspace
  calls : List Call
  sweeps : List Sweep

def Cache.empty : Cache where
  clock := 0
  entries _ := none
  locks _ := false
  staging _ := none
  nextStaging := 0
  links := []
  discarded := []
  calls := []
  sweeps := []

section Prepare

variable (lockTimeoutMs : ℕ)

/-- `noModules` is an installation that succeeds and leaves no `node_modules`. -/
inductive Answer where
  | done
  | fails
  | noModules
  deriving DecidableEq, Repr

def Cache.hasComplete (s : Cache) (fingerprint : Fingerprint) : Bool :=
  (s.entries fingerprint).any (·.complete.isSome)

def Cache.hasModules (s : Cache) (fingerprint : Fingerprint) : Bool :=
  (s.entries fingerprint).any (·.nodeModules.isSome)

def Call.at (call : Call) (stage : Stage) : Call := { call with stage }

/-- The call is under way. -/
def Call.live (call : Call) : Bool :=
  !call.crashed && match call.stage with
    | .settled _ => false
    | _ => true

/-- What follows the body: the `finally` of a call that has opened the lock. -/
def Call.finish (call : Call) (outcome : Outcome) : Call :=
  call.at <|
    if !call.holding then .settled outcome
    else if call.stagingPath.isSome then .removeStaging outcome
    else .closeLock outcome

def Call.fail (call : Call) (error : PrepareError) : Call := call.finish (.error error)

/-- A failing operation. An error of the `finally` replaces the one before it, and `unlink` has its
error dropped. -/
def Call.failed (call : Call) : Call :=
  match call.stage with
  | .install => call.fail .install
  | .removeStaging _ | .closeLock _ => call.at (.settled (.error .filesystem))
  | .unlock outcome => call.at (.settled outcome)
  | _ => call.fail .filesystem

def Cache.setEntry (s : Cache) (fingerprint : Fingerprint) (folder : Option Folder) : Cache :=
  { s with entries := Function.update s.entries fingerprint folder }

def Cache.setStaging (s : Cache) (id : ℕ) (folder : Option Folder) : Cache :=
  { s with staging := Function.update s.staging id folder }

@[simp] theorem setEntry_self (s : Cache) (f : Fingerprint) (folder : Option Folder) :
    (s.setEntry f folder).entries f = folder := by simp [Cache.setEntry]

theorem setEntry_of_ne (s : Cache) {f g : Fingerprint} (h : g ≠ f) (folder : Option Folder) :
    (s.setEntry f folder).entries g = s.entries g := by simp [Cache.setEntry, h]

@[simp] theorem setStaging_self (s : Cache) (id : ℕ) (folder : Option Folder) :
    (s.setStaging id folder).staging id = folder := by simp [Cache.setStaging]

theorem setStaging_of_ne (s : Cache) {id other : ℕ} (h : other ≠ id) (folder : Option Folder) :
    (s.setStaging id folder).staging other = s.staging other := by simp [Cache.setStaging, h]

/-- Whether a directory can be renamed to this path. -/
def isFree (entry : Option Folder) : Bool := entry.all (· == .empty)

/-- Whether the workspace is there and has no `node_modules`. -/
def Cache.linkable (s : Cache) (workspacePath : Workspace) : Bool :=
  !s.discarded.contains workspacePath && (s.links.lookup workspacePath).isNone

/-- The next operation of a call succeeds: its effect, and what the call awaits then. `none` for a
call that awaits nothing. -/
def Cache.advance (s : Cache) (call : Call) : Option (Cache × Call) :=
  match call.stage with
  | .makeDirectories => some (s, call.at .lookComplete)
  | .lookComplete =>
    if s.hasComplete call.fingerprint then some (s, call.at .lookModules)
    else some (s, { call with stage := .openLock, startedAt := s.clock })
  | .lookModules =>
    if s.hasModules call.fingerprint then some (s, call.at .mark)
    else some (s, { call with stage := .openLock, startedAt := s.clock })
  | .openLock =>
    if s.locks call.fingerprint then some (s, call.at .waitComplete)
    else some ({ s with locks := Function.update s.locks call.fingerprint true },
      { call with stage := .lockedComplete, holding := true })
  | .waitComplete =>
    if s.hasComplete call.fingerprint then some (s, call.at .waitModules)
    else if lockTimeoutMs ≤ s.clock - call.startedAt then some (s, call.fail .timedOut)
    else some (s, call.at .delay)
  | .waitModules =>
    if s.hasModules call.fingerprint then some (s, call.at .mark)
    else if lockTimeoutMs ≤ s.clock - call.startedAt then some (s, call.fail .timedOut)
    else some (s, call.at .delay)
  | .delay => some (s, call.at .openLock)
  | .lockedComplete =>
    some (s, call.at (if s.hasComplete call.fingerprint then .lockedModules else .makeStaging))
  | .lockedModules =>
    some (s, call.at (if s.hasModules call.fingerprint then .mark else .makeStaging))
  | .makeStaging =>
    some ({ s.setStaging s.nextStaging (some .empty) with nextStaging := s.nextStaging + 1 },
      { call with stage := .install, stagingPath := some s.nextStaging })
  | .install => call.stagingPath.map fun id =>
    (s.setStaging id ((s.staging id).map fun folder =>
      { folder with nodeModules := some (.whole call.fingerprint) }), call.at .stagedModules)
  | .stagedModules => call.stagingPath.map fun id =>
    (s, if (s.staging id).any (·.nodeModules.isSome) then call.at .stageComplete
      else call.fail .noNodeModules)
  | .stageComplete => call.stagingPath.map fun id =>
    (s.setStaging id ((s.staging id).map fun folder =>
      { folder with complete := some (some s.clock) }), call.at .removeEntry)
  | .removeEntry => some (s.setEntry call.fingerprint none, call.at .rename)
  | .rename => call.stagingPath.map fun id =>
    if isFree (s.entries call.fingerprint) then
      ((s.setEntry call.fingerprint (s.staging id)).setStaging id none,
        { call with stage := .link .miss, stagingPath := none })
    else (s, call.fail .filesystem)
  | .mark => match s.entries call.fingerprint with
    | some folder => some (s.setEntry call.fingerprint (some { folder with complete := some none }),
        call.at .markWrite)
    | none => some (s, call.fail .filesystem)
  | .markWrite =>
    some (s.setEntry call.fingerprint ((s.entries call.fingerprint).map fun folder =>
      { folder with complete := folder.complete.map fun _ => some s.clock }), call.at (.link .hit))
  | .link cache =>
    if s.linkable call.workspacePath then
      some ({ s with links := s.links ++ [(call.workspacePath, call.fingerprint)] },
        call.finish (.ok cache))
    else some (s, call.fail .filesystem)
  | .removeStaging outcome => call.stagingPath.map fun id =>
    (s.setStaging id none, { call with stage := .closeLock outcome, stagingPath := none })
  | .closeLock outcome => some (s, call.at (.unlock outcome))
  | .unlock outcome =>
    some ({ s with locks := Function.update s.locks call.fingerprint false },
      { call with stage := .settled outcome, holding := false })
  | .settled _ => none

end Prepare

section System

/-- What `rm` has removed so far of a directory. -/
inductive Wear where
  | spoil
  | dropModules
  | dropComplete
  deriving DecidableEq, Repr

def Wear.apply (wear : Wear) (folder : Folder) : Folder :=
  match wear with
  | .spoil => { folder with nodeModules := folder.nodeModules.map fun _ => .part }
  | .dropModules => { folder with nodeModules := none }
  | .dropComplete => { folder with complete := none }

inductive Label where
  | prepare (fingerprint : Fingerprint) (workspacePath : Workspace)
  | advance (i : ℕ) (answer : Answer)
  | write (i : ℕ)
  | wear (i : ℕ) (wear : Wear)
  | crash (i : ℕ)
  | sweep (name : Fingerprint)
  | advanceSweep (j : ℕ) (succeeds : Bool)
  | wearSweep (j : ℕ) (wear : Wear)
  | crashSweep (j : ℕ)
  | discard (workspacePath : Workspace)
  | elapse (ms : ℕ)
  deriving DecidableEq, Repr

/-- `exists` never throws, and a timer does not fail. -/
def Stage.mayFail : Stage → Bool
  | .lookComplete | .lookModules | .waitComplete | .waitModules | .delay | .lockedComplete
  | .lockedModules | .stagedModules | .settled _ => false
  | _ => true

def Cache.setCall (s : Cache) (i : ℕ) (call : Call) : Cache := { s with calls := s.calls.set i call }

def Cache.setSweep (s : Cache) (j : ℕ) (sweep : Sweep) : Cache :=
  { s with sweeps := s.sweeps.set j sweep }

/-- `readEntry`, as far as `removeIfUnlocked` compares it. -/
def Cache.readEntry (s : Cache) (name : Fingerprint) : Option Time :=
  (s.entries name).bind fun folder => folder.complete.bind id

def Cache.advanceSweep (s : Cache) (sweep : Sweep) (succeeds : Bool) : Option (Cache × Sweep) :=
  match sweep.stage with
  | .checkLock =>
    some (s, { sweep with stage := if s.locks sweep.name then .settled else .readEntry })
  | .readEntry => some (s, { sweep with
      stage := if succeeds ∧ s.readEntry sweep.name = some sweep.lastUsedAt then .recheckLock
        else .settled })
  | .recheckLock =>
    some (s, { sweep with stage := if s.locks sweep.name then .settled else .remove })
  | .remove =>
    some (if succeeds then s.setEntry sweep.name none else s, { sweep with stage := .settled })
  | .settled => none

def Cache.running (s : Cache) (i : ℕ) : Option Call := s.calls[i]?.filter (·.live)

def Cache.sweeping (s : Cache) (j : ℕ) : Option Sweep := s.sweeps[j]?.filter fun w => !w.crashed

variable (lockTimeoutMs : ℕ)

def Cache.step (s : Cache) : Label → Option Cache
  | .prepare fingerprint workspacePath => some { s with
      calls := s.calls ++ [⟨fingerprint, workspacePath, .makeDirectories, 0, false, none, false⟩] }
  | .advance i answer => (s.running i).bind fun call =>
    match answer with
    | .done => (s.advance lockTimeoutMs call).map fun next => next.1.setCall i next.2
    | .fails => if call.stage.mayFail then some (s.setCall i call.failed) else none
    | .noModules =>
      if call.stage = .install ∧ (call.stagingPath.bind s.staging).any (·.nodeModules.isNone) then
        some (s.setCall i (call.at .stagedModules))
      else none
  | .write i => (s.running i).bind fun call =>
    if call.stage = .install then
      call.stagingPath.map fun id => s.setStaging id ((s.staging id).map fun folder =>
        { folder with nodeModules := some .part })
    else none
  | .wear i wear => (s.running i).bind fun call =>
    if call.stage = .removeEntry then
      some (s.setEntry call.fingerprint ((s.entries call.fingerprint).map wear.apply))
    else none
  | .crash i => (s.running i).map fun call => s.setCall i { call with crashed := true }
  | .sweep name => (s.readEntry name).map fun lastUsedAt =>
    { s with sweeps := s.sweeps ++ [⟨name, lastUsedAt, .checkLock, false⟩] }
  | .advanceSweep j succeeds => (s.sweeping j).bind fun sweep =>
    (s.advanceSweep sweep succeeds).map fun next => next.1.setSweep j next.2
  | .wearSweep j wear => (s.sweeping j).bind fun sweep =>
    if sweep.stage = .remove then
      some (s.setEntry sweep.name ((s.entries sweep.name).map wear.apply))
    else none
  | .crashSweep j => (s.sweeping j).map fun sweep => s.setSweep j { sweep with crashed := true }
  | .discard workspacePath => some { s with
      links := s.links.filter (·.1 != workspacePath)
      discarded := workspacePath :: s.discarded }
  | .elapse ms => some { s with clock := s.clock + ms }

/-- Every state of every run whose steps all satisfy `ok`. -/
inductive Cache.Reached (ok : Cache → Label → Prop) : Cache → Prop where
  | start : Cache.Reached ok .empty
  | step {s s' : Cache} {l : Label} (h : Cache.Reached ok s) (hl : ok s l)
      (hstep : s.step lockTimeoutMs l = some s') : Cache.Reached ok s'

end System

end DependencyCache
end AppBuilder.Agent.Validation
