import AppBuilder.Encoding.Utf8

/-! A stream of bytes that is decoded and broken into lines as its chunks arrive. -/
namespace AppBuilder.Encoding

open Utf8

/-- `TextDecoder`: the byte order mark is dropped where it comes first. -/
structure TextDecoder where
  decoder : Decoder
  bomSeen : Bool
  deriving DecidableEq

namespace TextDecoder

def new : TextDecoder := ⟨Decoder.initial, false⟩

def byteOrderMark : Char := Char.ofNat 0xFEFF

def serialize (bomSeen : Bool) (s : Text) : Text :=
  match s with
  | [] => []
  | c :: rest => if !bomSeen && c == byteOrderMark then rest else c :: rest

def seenAfter (bomSeen : Bool) (s : Text) : Bool := bomSeen || !s.isEmpty

/-- `decoder.decode(bytes, { stream: true })` -/
def decodeChunk (d : TextDecoder) (bytes : List ℕ) : Text × TextDecoder :=
  let (s, decoder) := d.decoder.run bytes
  (serialize d.bomSeen s, ⟨decoder, seenAfter d.bomSeen s⟩)

/-- `decoder.decode()` -/
def decodeEnd (d : TextDecoder) : Text := serialize d.bomSeen d.decoder.flush

theorem serialize_append (bomSeen : Bool) (s t : Text) :
    serialize bomSeen (s ++ t) = serialize bomSeen s ++ serialize (seenAfter bomSeen s) t := by
  cases s with
  | nil => simp [serialize, seenAfter]
  | cons c rest =>
    have hseen : seenAfter bomSeen (c :: rest) = true := by simp [seenAfter]
    have ht : serialize true t = t := by cases t <;> rfl
    rw [hseen, ht]
    unfold serialize
    by_cases hmark : (!bomSeen && c == byteOrderMark) = true
    · simp [hmark]
    · simp [hmark]

theorem seenAfter_append (bomSeen : Bool) (s t : Text) :
    seenAfter bomSeen (s ++ t) = seenAfter (seenAfter bomSeen s) t := by
  cases s with
  | nil => simp [seenAfter]
  | cons c rest => simp [seenAfter]

theorem decodeChunk_nil (d : TextDecoder) : d.decodeChunk [] = ([], d) := by
  simp [decodeChunk, Decoder.run, serialize, seenAfter]

theorem decodeChunk_append (d : TextDecoder) (as bs : List ℕ) :
    d.decodeChunk (as ++ bs) =
      ((d.decodeChunk as).1 ++ ((d.decodeChunk as).2.decodeChunk bs).1,
        ((d.decodeChunk as).2.decodeChunk bs).2) := by
  simp only [decodeChunk, Decoder.run_append, serialize_append, seenAfter_append]

end TextDecoder

section Lines

def isNewline (c : Char) : Bool := c == '\r' || c == '\n'

/-- The first line of a text, and what follows its delimiter. A CR that comes last can be the first
half of a CRLF. -/
def breakLine (endOfStream : Bool) (buffer : Text) : Option (Text × Text) :=
  let line := buffer.takeWhile fun c => !isNewline c
  match buffer.dropWhile fun c => !isNewline c with
  | [] => none
  | ['\r'] => if endOfStream then some (line, []) else none
  | '\r' :: '\n' :: rest => some (line, rest)
  | _ :: rest => some (line, rest)

theorem breakLine_length {endOfStream : Bool} {buffer line rest : Text}
    (h : breakLine endOfStream buffer = some (line, rest)) : rest.length < buffer.length := by
  have hle := (List.dropWhile_sublist (fun c => !isNewline c) (l := buffer)).length_le
  unfold breakLine at h
  generalize buffer.dropWhile (fun c => !isNewline c) = tail at h hle
  dsimp only at h
  split at h
  · cases h
  · split_ifs at h
    cases h
    exact hle
  · cases h
    simp only [List.length_cons] at hle
    omega
  · cases h
    simp only [List.length_cons] at hle
    omega

/-- A line that has been found stays as it is when more text arrives. -/
theorem breakLine_append {buffer line rest : Text} (endOfStream : Bool) (more : Text)
    (h : breakLine false buffer = some (line, rest)) :
    breakLine endOfStream (buffer ++ more) = some (line, rest ++ more) := by
  unfold breakLine at h ⊢
  have hdrop : buffer.dropWhile (fun c => !isNewline c) ≠ [] := by
    intro hnil
    simp [hnil] at h
  have htake : (buffer ++ more).takeWhile (fun c => !isNewline c) =
      buffer.takeWhile fun c => !isNewline c := by
    have hparts := congrArg List.length
      (List.takeWhile_append_dropWhile (p := fun c => !isNewline c) (l := buffer))
    rw [List.length_append] at hparts
    have hpos := List.length_pos_iff.mpr hdrop
    rw [List.takeWhile_append, if_neg (by omega)]
  have hmore : (buffer ++ more).dropWhile (fun c => !isNewline c) =
      buffer.dropWhile (fun c => !isNewline c) ++ more := by
    rw [List.dropWhile_append, if_neg (by simpa [List.isEmpty_iff] using hdrop)]
  rw [htake, hmore]
  generalize buffer.dropWhile (fun c => !isNewline c) = tail at h
  dsimp only at h
  split at h
  · cases h
  · cases h
  · cases h
    rfl
  · next c rest' hlone hpair =>
    cases h
    rw [List.cons_append]
    split
    · next heq => cases heq
    · next heq =>
      obtain ⟨rfl, htail⟩ := List.cons.inj heq
      exact (hlone rfl (List.append_eq_nil_iff.mp htail).1).elim
    · next heq =>
      obtain ⟨rfl, htail⟩ := List.cons.inj heq
      cases rest with
      | nil => exact (hlone rfl rfl).elim
      | cons d rest' =>
        obtain ⟨rfl, -⟩ := List.cons.inj htail
        exact (hpair rest' rfl rfl).elim
    · next heq =>
      obtain ⟨-, rfl⟩ := List.cons.inj heq
      rfl

variable {S : Type} (readLine : S → Text → S) (halted : S → Bool)

/-- Reads the lines of the buffer until none is complete or the reader halts. -/
def readLines (endOfStream : Bool) (state : S) (buffer : Text) : S × Text :=
  match _h : breakLine endOfStream buffer with
  | none => (state, buffer)
  | some (line, rest) =>
    if halted (readLine state line) then (readLine state line, rest)
    else readLines endOfStream (readLine state line) rest
termination_by buffer.length
decreasing_by exact breakLine_length _h

theorem readLines_of_none {endOfStream : Bool} {state : S} {buffer : Text}
    (h : breakLine endOfStream buffer = none) :
    readLines readLine halted endOfStream state buffer = (state, buffer) := by
  rw [readLines]
  split
  · rfl
  · next heq =>
    rw [h] at heq
    cases heq

theorem readLines_of_some {endOfStream : Bool} {state : S} {buffer line rest : Text}
    (h : breakLine endOfStream buffer = some (line, rest)) :
    readLines readLine halted endOfStream state buffer =
      if halted (readLine state line) then (readLine state line, rest)
      else readLines readLine halted endOfStream (readLine state line) rest := by
  rw [readLines]
  split
  · next heq =>
    rw [h] at heq
    cases heq
  · next heq =>
    rw [h] at heq
    cases heq
    rfl

/-- Reading what has arrived, and the rest later, is reading all of it. -/
theorem readLines_append (endOfStream : Bool) {state : S} (buffer more : Text)
    (hstate : halted state = false) :
    readLines readLine halted endOfStream state (buffer ++ more) =
      if halted (readLines readLine halted false state buffer).1 then
        ((readLines readLine halted false state buffer).1,
          (readLines readLine halted false state buffer).2 ++ more)
      else readLines readLine halted endOfStream (readLines readLine halted false state buffer).1
        ((readLines readLine halted false state buffer).2 ++ more) := by
  induction hn : buffer.length using Nat.strong_induction_on generalizing state buffer with
  | _ n ih =>
    cases hline : breakLine false buffer with
    | none => simp [readLines_of_none readLine halted hline, hstate]
    | some found =>
      obtain ⟨line, rest⟩ := found
      have hmore := breakLine_append endOfStream more hline
      rw [readLines_of_some readLine halted hline, readLines_of_some readLine halted hmore]
      cases hhalt : halted (readLine state line) with
      | true => simp [hhalt]
      | false =>
        have hlt := breakLine_length hline
        simpa using ih rest.length (hn ▸ hlt) rest hhalt rfl

/-- Reads the chunks until the stream ends or the reader halts. -/
def readChunks (state : S) (decoder : TextDecoder) (buffer : Text) : List (List ℕ) → S
  | [] => (readLines readLine halted true state (buffer ++ decoder.decodeEnd)).1
  | chunk :: chunks =>
    let (s, decoder) := decoder.decodeChunk chunk
    let (state, buffer) := readLines readLine halted false state (buffer ++ s)
    if halted state then state else readChunks state decoder buffer chunks

/-- The chunks are read as the text that they make together. -/
theorem readChunks_eq {state : S} (decoder : TextDecoder) (buffer : Text)
    (chunks : List (List ℕ)) (hstate : halted state = false) :
    readChunks readLine halted state decoder buffer chunks =
      (readLines readLine halted true state (buffer ++ (decoder.decodeChunk chunks.flatten).1 ++
        (decoder.decodeChunk chunks.flatten).2.decodeEnd)).1 := by
  induction chunks generalizing state decoder buffer with
  | nil => simp [readChunks, TextDecoder.decodeChunk_nil]
  | cons chunk chunks ih =>
    have htext := decoder.decodeChunk_append chunk chunks.flatten
    rw [List.flatten_cons, htext, ← List.append_assoc buffer, List.append_assoc (buffer ++ _),
      readLines_append readLine halted true _ _ hstate]
    unfold readChunks
    dsimp only
    split
    · rfl
    · next hhalt =>
      rw [ih _ _ (by simpa using hhalt), List.append_assoc]

theorem readChunks_flatten {state : S} (chunks : List (List ℕ)) (hstate : halted state = false) :
    readChunks readLine halted state TextDecoder.new [] chunks =
      readChunks readLine halted state TextDecoder.new [] [chunks.flatten] := by
  rw [readChunks_eq readLine halted _ _ chunks hstate,
    readChunks_eq readLine halted _ _ [chunks.flatten] hstate, List.flatten_singleton]

end Lines

end AppBuilder.Encoding
