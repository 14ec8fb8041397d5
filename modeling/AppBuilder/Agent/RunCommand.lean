import AppBuilder.Encoding.Utf8Pieces
import Mathlib.Algebra.Order.Ring.Int

/-! `agent/workspace/runCommand.ts`: what is kept of the output of a command, in UTF-16 code units. -/
namespace AppBuilder.Agent.RunCommand
open Encoding

structure RunCommandInput where
  timeoutMs : ℕ
  maxOutputChars : ℤ

structure CommandResult where
  exitCode : ℤ
  stdout : List ℕ
  stderr : List ℕ
  deriving DecidableEq

inductive Stream where
  | stdout
  | stderr
  deriving DecidableEq

/-- What the listeners are told. A chunk is a buffer, the message of an error a string. -/
inductive ChildEvent where
  | data (stream : Stream) (chunk : List ℕ)
  | error (message : List ℕ)
  | close (code : Option ℤ) (signalled : Bool)
  | timeout
  | abort

inductive Settlement where
  | resolved (result : CommandResult)
  | rejected
  deriving DecidableEq

structure Running where
  stdout : List ℕ
  stderr : List ℕ
  timedOut : Bool
  aborted : Bool
  settled : Option Settlement
  deriving DecidableEq

def unitsOf (s : String) : List ℕ := Utf16.encode s.toList

/-- `chunk.toString()` -/
def chunkText (chunk : List ℕ) : List ℕ := Utf16.encode (Utf8.decode chunk)

def appendBounded (current chunk : List ℕ) (limit : ℤ) : List ℕ :=
  if limit ≤ current.length then current else (current ++ chunk).take limit.toNat

namespace Running

def start : Running := ⟨[], [], false, false, none⟩

def finish (s : Running) (exitCode : ℤ) : Running :=
  if s.settled.isSome then s
  else { s with settled := some (.resolved ⟨exitCode, s.stdout, s.stderr⟩) }

def fail (s : Running) : Running :=
  if s.settled.isSome then s else { s with settled := some .rejected }

end Running

variable (input : RunCommandInput)

/-- The listeners; the timer and the `abort` listener are gone once the promise has settled. -/
def step (s : Running) : ChildEvent → Running
  | .data .stdout chunk =>
    { s with stdout := appendBounded s.stdout (chunkText chunk) input.maxOutputChars }
  | .data .stderr chunk =>
    { s with stderr := appendBounded s.stderr (chunkText chunk) input.maxOutputChars }
  | .error message =>
    if s.aborted then s.fail
    else
      let stderr := appendBounded s.stderr (unitsOf "Command failed to start: " ++ message)
        input.maxOutputChars
      { s with stderr }.finish 1
  | .close code signalled =>
    if s.aborted then s.fail
    else if s.timedOut then
      let message := unitsOf ("Command timed out after " ++ toString input.timeoutMs ++ "ms")
      let kept := s.stderr.take (max 0 (input.maxOutputChars - message.length)).toNat
      { s with stderr := kept ++ message }.finish 124
    else s.finish (code.getD (if signalled then 1 else 0))
  | .timeout => if s.settled.isSome then s else { s with timedOut := true }
  | .abort => if s.settled.isSome then s else { s with aborted := true }

def runCommand (events : List ChildEvent) : Option Settlement :=
  (events.foldl (step input) .start).settled

/-- A command that ends by itself: the chunks of its two streams in any order, and its end. -/
def runOutput (output : List (Stream × List ℕ)) (code : Option ℤ) (signalled : Bool) :
    Option Settlement :=
  runCommand input (output.map (fun x => .data x.1 x.2) ++ [.close code signalled])

/-- The chunks of a stream. -/
def chunksOf (stream : Stream) (output : List (Stream × List ℕ)) : List (List ℕ) :=
  (output.filter (·.1 = stream)).map (·.2)

/-- The first code units of what a stream says as a whole. -/
def streamText (limit : ℤ) (bytes : List ℕ) : List ℕ :=
  (Utf16.encode (Utf8.decode bytes)).take limit.toNat

section Output

variable {input} {limit : ℤ}

theorem appendBounded_take (all chunk : List ℕ) :
    appendBounded (all.take limit.toNat) chunk limit = (all ++ chunk).take limit.toNat := by
  unfold appendBounded
  rw [List.length_take]
  split_ifs with hfull
  · rw [List.take_append_of_le_length (by omega)]
  · have hall : all.take limit.toNat = all := List.take_of_length_le (by omega)
    rw [hall]

/-- One chunk after the other, the start of all their texts is kept. -/
theorem foldl_step_output (output : List (Stream × List ℕ)) {s : Running} (out err : List ℕ)
    (hout : s.stdout = out.take input.maxOutputChars.toNat)
    (herr : s.stderr = err.take input.maxOutputChars.toNat) :
    (output.map fun x => ChildEvent.data x.1 x.2).foldl (step input) s =
      { s with
        stdout := (out ++ (chunksOf .stdout output).flatMap chunkText).take
          input.maxOutputChars.toNat
        stderr := (err ++ (chunksOf .stderr output).flatMap chunkText).take
          input.maxOutputChars.toNat } := by
  induction output generalizing s out err with
  | nil =>
    obtain ⟨stdout, stderr, timedOut, aborted, settled⟩ := s
    dsimp only at hout herr
    simp [chunksOf, hout, herr]
  | cons x output ih =>
    obtain ⟨stream, chunk⟩ := x
    rw [List.map_cons, List.foldl_cons]
    cases stream with
    | stdout =>
      have hstep : (step input s (.data .stdout chunk)).stdout =
          (out ++ chunkText chunk).take input.maxOutputChars.toNat := by
        rw [← appendBounded_take, ← hout]
        rfl
      rw [ih (out ++ chunkText chunk) err hstep herr]
      simp [step, chunksOf]
    | stderr =>
      have hstep : (step input s (.data .stderr chunk)).stderr =
          (err ++ chunkText chunk).take input.maxOutputChars.toNat := by
        rw [← appendBounded_take, ← herr]
        rfl
      have hother : (step input s (.data .stderr chunk)).stdout =
          out.take input.maxOutputChars.toNat := hout
      rw [ih out (err ++ chunkText chunk) hother hstep]
      simp [step, chunksOf]

theorem runOutput_eq (output : List (Stream × List ℕ)) (code : Option ℤ) (signalled : Bool) :
    runOutput input output code signalled = some (.resolved
      { exitCode := code.getD (if signalled then 1 else 0)
        stdout := ((chunksOf .stdout output).flatMap chunkText).take input.maxOutputChars.toNat
        stderr := ((chunksOf .stderr output).flatMap chunkText).take
          input.maxOutputChars.toNat }) := by
  rw [runOutput, runCommand, List.foldl_append,
    foldl_step_output output [] [] List.take_nil.symm List.take_nil.symm]
  rfl

theorem flatMap_chunkText (chunks : List (List ℕ)) :
    chunks.flatMap chunkText = Utf16.encode (chunks.flatMap Utf8.decode) := by
  induction chunks with
  | nil => rfl
  | cons chunk chunks ih =>
    rw [List.flatMap_cons, List.flatMap_cons, Utf8.encode_append, ih]
    rfl

end Output

/-- Every end of a chunk that lies inside the bytes of a character is followed, up to the limit, by
replacement characters only. -/
def CutsHarmless (limit : ℤ) (chunks : List (List ℕ)) : Prop :=
  ∀ before after, chunks = before ++ after → Utf8.Inside before.flatten after.flatten →
    Utf8.Drowned limit.toNat before.flatten after.flatten

/-- What is captured of a stream is the start of its text exactly where the cuts are harmless. -/
theorem captured_iff (output : List (Stream × List ℕ)) (code : Option ℤ) (signalled : Bool) :
    ∃ result, runOutput input output code signalled = some (.resolved result) ∧
      (result.stdout = streamText input.maxOutputChars (chunksOf .stdout output).flatten ↔
        CutsHarmless input.maxOutputChars (chunksOf .stdout output)) ∧
      (result.stderr = streamText input.maxOutputChars (chunksOf .stderr output).flatten ↔
        CutsHarmless input.maxOutputChars (chunksOf .stderr output)) := by
  have hresult := @runOutput_eq input output code signalled
  rw [flatMap_chunkText, flatMap_chunkText] at hresult
  exact ⟨_, hresult, Utf8.take_pieces_iff _ _, Utf8.take_pieces_iff _ _⟩

/-- A euro sign that arrives in two chunks. -/
theorem euro_replaced : ¬∀ (input : RunCommandInput) (output : List (Stream × List ℕ))
    (code : Option ℤ) (signalled : Bool),
    ∃ result, runOutput input output code signalled = some (.resolved result) ∧
      result.stdout = streamText input.maxOutputChars (chunksOf .stdout output).flatten ∧
      result.stderr = streamText input.maxOutputChars (chunksOf .stderr output).flatten := by
  intro h
  obtain ⟨result, hrun, hstdout, -⟩ :=
    h ⟨1000, 100⟩ [(.stdout, [0xE2]), (.stdout, [0x82, 0xAC])] (some 0) false
  have hreplaced : runOutput ⟨1000, 100⟩ [(.stdout, [0xE2]), (.stdout, [0x82, 0xAC])] (some 0)
      false = some (.resolved ⟨0, [0xFFFD, 0xFFFD, 0xFFFD], []⟩) := by decide
  rw [hreplaced] at hrun
  cases hrun
  revert hstdout
  decide

end AppBuilder.Agent.RunCommand
