import AppBuilder.Agent.StateMachine
import AppBuilder.Async.Prog
import AppBuilder.Web.AppBuilderWorkspace

/-! `apps/web/src/services/agentRunMonitor.ts`: a run is polled after its event stream has been
given up. -/
namespace AppBuilder.Web
namespace AgentRunMonitor
open Agent Async

def maxFallbackAttempts : ℕ := 60

def fallbackDelayMs : ℕ := 500

/-- `TERMINAL_RUN_STATUSES` of the client. -/
def terminalRunStatuses : List AgentRunStatus := [.completed, .failed, .cancelled]

inductive StreamOutcome where
  | terminal
  | exhausted
  deriving DecidableEq

inductive MonitorError where
  | abort
  | timedOut
  | failed (message : String)
  deriving DecidableEq

/-- What the monitor does. `stream`, `getRun` and `delay` are awaited by `waitForAbort`, so they are
answered by `abort` where the signal is aborted first; `aborted` reads the signal. -/
inductive Op where
  | stream
  | getRun
  | delay (durationMs : ℕ)
  | aborted
  deriving DecidableEq

def Op.Reply : Op → Type
  | .stream => StreamOutcome
  | .getRun => AgentRunDetail
  | .delay _ => Unit
  | .aborted => Bool

abbrev client : Interface := ⟨Op, Op.Reply, MonitorError⟩

abbrev Client (α : Type) := Prog client α

def stream : Client StreamOutcome := .perform (I := client) .stream

def getRun : Client AgentRunDetail := .perform (I := client) .getRun

def delay (durationMs : ℕ) : Client Unit := .perform (I := client) (.delay durationMs)

def signalAborted : Client Bool := .perform (I := client) .aborted

def throwIfAborted : Client Unit := do
  if ← signalAborted then .throw .abort

/-- The attempts that are left. -/
def poll : ℕ → Client AgentRunDetail
  | 0 => .throw .timedOut
  | n + 1 => do
    throwIfAborted
    let detail ← getRun
    throwIfAborted
    if terminalRunStatuses.contains detail.run.status then return detail
    if 0 < n then
      delay fallbackDelayMs
      throwIfAborted
    poll n

def monitorAgentRun : Client AgentRunDetail := do
  throwIfAborted
  let outcome ← stream
  throwIfAborted
  if outcome = .terminal then
    let detail ← getRun
    throwIfAborted
    return detail
  poll maxFallbackAttempts

section Polling

variable (details : ℕ → AgentRunDetail)

/-- The stream is exhausted, the signal is never aborted and every poll succeeds; the state counts
the polls. -/
def answering : (op : Op) → ℕ → client.Answer op × ℕ
  | .stream, n => (.ok StreamOutcome.exhausted, n)
  | .getRun, n => (.ok (details n), n + 1)
  | .delay _, n => (.ok (), n)
  | .aborted, n => (.ok false, n)

/-- What the monitor ends with, and how often it has polled. -/
def monitored : Except MonitorError AgentRunDetail × ℕ :=
  monitorAgentRun.evaluate (answering details) 0

/-- The first detail whose status is terminal on the server. -/
def FirstTerminal (k : ℕ) : Prop :=
  isTerminalAgentRunStatus (details k).run.status = true ∧
    ∀ j < k, isTerminalAgentRunStatus (details j).run.status = false

variable {details}

theorem evaluate_throwIfAborted (polled : ℕ) :
    throwIfAborted.evaluate (answering details) polled = (.ok (), polled) := rfl

theorem evaluate_getRun (polled : ℕ) :
    getRun.evaluate (answering details) polled = (.ok (details polled), polled + 1) := rfl

theorem evaluate_delay (durationMs polled : ℕ) :
    (delay durationMs).evaluate (answering details) polled = (.ok (), polled) := rfl

/-- One round of the loop. -/
theorem evaluate_poll_succ (n polled : ℕ) :
    (poll (n + 1)).evaluate (answering details) polled =
      if terminalRunStatuses.contains (details polled).run.status then
        (.ok (details polled), polled + 1)
      else (poll n).evaluate (answering details) (polled + 1) := by
  rw [poll]
  refine (Prog.evaluate_bind_ok (evaluate_throwIfAborted polled) _).trans ?_
  refine (Prog.evaluate_bind_ok (evaluate_getRun polled) _).trans ?_
  refine (Prog.evaluate_bind_ok (evaluate_throwIfAborted (polled + 1)) _).trans ?_
  split_ifs with hterminal hwait
  · rfl
  · refine (Prog.evaluate_bind_ok (evaluate_delay _ (polled + 1)) _).trans ?_
    exact Prog.evaluate_bind_ok (evaluate_throwIfAborted (polled + 1)) _
  · rfl

/-- The loop ends with the first detail whose status is terminal for the client. -/
theorem evaluate_poll_found {n k polled : ℕ} (hk : k < n)
    (hterminal : terminalRunStatuses.contains (details (polled + k)).run.status = true)
    (hbefore : ∀ j < k, terminalRunStatuses.contains (details (polled + j)).run.status = false) :
    (poll n).evaluate (answering details) polled =
      (.ok (details (polled + k)), polled + k + 1) := by
  induction k generalizing n polled with
  | zero =>
    obtain ⟨n, rfl⟩ : ∃ m, n = m + 1 := ⟨n - 1, by omega⟩
    simp only [Nat.add_zero] at hterminal ⊢
    rw [evaluate_poll_succ, if_pos hterminal]
  | succ k ih =>
    obtain ⟨n, rfl⟩ : ∃ m, n = m + 1 := ⟨n - 1, by omega⟩
    have hfirst := hbefore 0 (by omega)
    rw [Nat.add_zero] at hfirst
    have hshift : ∀ j, polled + (j + 1) = polled + 1 + j := by omega
    rw [evaluate_poll_succ, if_neg (by rw [hfirst]; exact Bool.false_ne_true), hshift k]
    rw [hshift k] at hterminal
    refine ih (by omega) hterminal fun j hj => ?_
    rw [← hshift j]
    exact hbefore (j + 1) (by omega)

theorem evaluate_poll_none {n polled : ℕ}
    (h : ∀ j < n, terminalRunStatuses.contains (details (polled + j)).run.status = false) :
    (poll n).evaluate (answering details) polled = (.error .timedOut, polled + n) := by
  induction n generalizing polled with
  | zero => rfl
  | succ n ih =>
    have hfirst := h 0 (by omega)
    rw [Nat.add_zero] at hfirst
    have hshift : ∀ j, polled + (j + 1) = polled + 1 + j := by omega
    rw [evaluate_poll_succ, if_neg (by rw [hfirst]; exact Bool.false_ne_true), hshift n]
    refine ih fun j hj => ?_
    rw [← hshift j]
    exact h (j + 1) (by omega)

theorem monitored_eq :
    monitored details = (poll maxFallbackAttempts).evaluate (answering details) 0 := by
  unfold monitored monitorAgentRun
  refine (Prog.evaluate_bind_ok (evaluate_throwIfAborted 0) _).trans ?_
  refine (Prog.evaluate_bind_ok (rfl : stream.evaluate (answering details) 0 = (.ok _, 0)) _).trans ?_
  exact Prog.evaluate_bind_ok (evaluate_throwIfAborted 0) _

/-- What is terminal for the client is terminal on the server; the client misses one status. -/
theorem isTerminal_iff (status : AgentRunStatus) : isTerminalAgentRunStatus status = true ↔
    terminalRunStatuses.contains status = true ∨ status = .completedWithConflict := by
  cases status <;> decide

theorem not_terminal_for_client {status : AgentRunStatus}
    (h : isTerminalAgentRunStatus status = false) :
    terminalRunStatuses.contains status = false := by
  by_contra hclient
  rw [Bool.not_eq_false] at hclient
  rw [(isTerminal_iff status).mpr (.inl hclient)] at h
  cases h

theorem monitored_found {k : ℕ} (hk : k < maxFallbackAttempts)
    (hterminal : terminalRunStatuses.contains (details k).run.status = true)
    (hbefore : ∀ j < k, terminalRunStatuses.contains (details j).run.status = false) :
    monitored details = (.ok (details k), k + 1) := by
  have hfound := @evaluate_poll_found details maxFallbackAttempts k 0 hk
  simp only [Nat.zero_add] at hfound
  rw [monitored_eq]
  exact hfound hterminal hbefore

/-- The polls go on after a completion with a conflict. -/
theorem monitored_conflict {k : ℕ}
    (hconflict : (details k).run.status = .completedWithConflict) :
    monitored details ≠ (.ok (details k), k + 1) := by
  intro hreturned
  by_cases hlater : ∃ j, j < maxFallbackAttempts ∧
      terminalRunStatuses.contains (details j).run.status = true
  · obtain ⟨hj, hterminal⟩ := Nat.find_spec hlater
    have hbefore : ∀ i < Nat.find hlater,
        terminalRunStatuses.contains (details i).run.status = false := by
      intro i hi
      have hnot := Nat.find_min hlater hi
      simpa using fun h => hnot ⟨by omega, by simpa using h⟩
    rw [monitored_found hj hterminal hbefore] at hreturned
    have hsame : Nat.find hlater = k := by simpa using congrArg Prod.snd hreturned
    rw [hsame, hconflict] at hterminal
    cases hterminal
  · have hnone : ∀ j < maxFallbackAttempts,
        terminalRunStatuses.contains (details (0 + j)).run.status = false := by
      intro j hj
      rw [Nat.zero_add]
      simpa using fun h => hlater ⟨j, hj, by simpa using h⟩
    rw [monitored_eq, evaluate_poll_none hnone] at hreturned
    cases hreturned

variable (details) in
/-- The first terminal detail ends the polling exactly where it is not a completion with a
conflict. -/
theorem monitored_first_iff :
    (∀ k < maxFallbackAttempts, FirstTerminal details k →
      monitored details = (.ok (details k), k + 1)) ↔
    ∀ k < maxFallbackAttempts, FirstTerminal details k →
      (details k).run.status ≠ .completedWithConflict := by
  constructor
  · intro h k hk hfirst hconflict
    exact monitored_conflict hconflict (h k hk hfirst)
  · intro h k hk hfirst
    have hclient := ((isTerminal_iff _).mp hfirst.1).resolve_right (h k hk hfirst)
    exact monitored_found hk hclient fun j hj => not_terminal_for_client (hfirst.2 j hj)

/-- A run that has completed with a conflict is polled until the attempts are used up. -/
theorem conflict_times_out : ¬∀ (details : ℕ → AgentRunDetail), ∀ k < maxFallbackAttempts,
    FirstTerminal details k → monitored details = (.ok (details k), k + 1) := by
  intro h
  have hreturned := h (fun _ => ⟨⟨[], .completedWithConflict, none⟩, [], none⟩) 0 (by decide)
    ⟨rfl, fun j hj => (nomatch hj)⟩
  have hpolls := congrArg Prod.snd hreturned
  revert hpolls
  decide

end Polling

end AgentRunMonitor
end AppBuilder.Web
