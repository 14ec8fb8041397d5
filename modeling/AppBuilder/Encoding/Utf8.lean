import AppBuilder.Encoding.Json
import Mathlib.Tactic.NormNum

/-! UTF-8, and the decoder of the Encoding Standard, which reads a stream byte by byte. -/
namespace AppBuilder.Encoding.Utf8

def encodeChar (c : Char) : List ℕ :=
  let n := c.toNat
  if n < 0x80 then [n]
  else if n < 0x800 then [0xC0 + n / 64, 0x80 + n % 64]
  else if n < 0x10000 then [0xE0 + n / 4096, 0x80 + n / 64 % 64, 0x80 + n % 64]
  else [0xF0 + n / 262144, 0x80 + n / 4096 % 64, 0x80 + n / 64 % 64, 0x80 + n % 64]

def encode (s : Text) : List ℕ := s.flatMap encodeChar

/-- A character that is not complete: how many bytes are missing, what the ones so far make, and
the bounds of the next one. -/
structure Decoder where
  needed : ℕ
  point : ℕ
  lower : ℕ
  upper : ℕ
  deriving DecidableEq

def Decoder.initial : Decoder := ⟨0, 0, 0x80, 0xBF⟩

def replacement : Char := Char.ofNat 0xFFFD

namespace Decoder

def first (byte : ℕ) : Text × Decoder :=
  if byte < 0x80 then ([Char.ofNat byte], initial)
  else if 0xC2 ≤ byte ∧ byte ≤ 0xDF then ([], ⟨1, byte - 0xC0, 0x80, 0xBF⟩)
  else if 0xE0 ≤ byte ∧ byte ≤ 0xEF then
    ([], ⟨2, byte - 0xE0, if byte = 0xE0 then 0xA0 else 0x80,
      if byte = 0xED then 0x9F else 0xBF⟩)
  else if 0xF0 ≤ byte ∧ byte ≤ 0xF4 then
    ([], ⟨3, byte - 0xF0, if byte = 0xF0 then 0x90 else 0x80,
      if byte = 0xF4 then 0x8F else 0xBF⟩)
  else ([replacement], initial)

def step (d : Decoder) (byte : ℕ) : Text × Decoder :=
  if d.needed = 0 then first byte
  else if byte < d.lower ∨ d.upper < byte then
    (replacement :: (first byte).1, (first byte).2)
  else if d.needed = 1 then ([Char.ofNat (64 * d.point + byte % 64)], initial)
  else ([], ⟨d.needed - 1, 64 * d.point + byte % 64, 0x80, 0xBF⟩)

def run (d : Decoder) : List ℕ → Text × Decoder
  | [] => ([], d)
  | byte :: bytes => ((d.step byte).1 ++ ((d.step byte).2.run bytes).1,
      ((d.step byte).2.run bytes).2)

/-- The end of the stream. -/
def flush (d : Decoder) : Text := if d.needed = 0 then [] else [replacement]

/-- A stream may be read in pieces. -/
theorem run_append (d : Decoder) (as bs : List ℕ) :
    d.run (as ++ bs) = ((d.run as).1 ++ ((d.run as).2.run bs).1, ((d.run as).2.run bs).2) := by
  induction as generalizing d with
  | nil => rfl
  | cons a as ih => simp [run, ih]

end Decoder

def decode (bytes : List ℕ) : Text :=
  (Decoder.initial.run bytes).1 ++ (Decoder.initial.run bytes).2.flush

section RoundTrip

open Decoder

/-- The bytes of a code point, where the parts of the point are known. -/
theorem step_last {point byte lower upper n : ℕ} (hlower : lower ≤ byte) (hupper : byte ≤ upper)
    (hn : 64 * point + byte % 64 = n) :
    step ⟨1, point, lower, upper⟩ byte = ([Char.ofNat n], initial) := by
  have hbounds : ¬ (byte < lower ∨ upper < byte) := by omega
  simp only [step, Nat.one_ne_zero, if_false, hbounds, if_true, hn]

theorem step_more {k point byte lower upper n : ℕ} (hlower : lower ≤ byte)
    (hupper : byte ≤ upper) (hn : 64 * point + byte % 64 = n) :
    step ⟨k + 2, point, lower, upper⟩ byte = ([], ⟨k + 1, n, 0x80, 0xBF⟩) := by
  have hbounds : ¬ (byte < lower ∨ upper < byte) := by omega
  have hneeded : k + 2 ≠ 0 := by omega
  have hone : k + 2 ≠ 1 := by omega
  simp only [step, hneeded, if_false, hbounds, hone, hn]
  rfl

theorem first_two {byte : ℕ} (h : 0xC2 ≤ byte) (h' : byte ≤ 0xDF) :
    first byte = ([], ⟨1, byte - 0xC0, 0x80, 0xBF⟩) := by
  have h₁ : ¬ byte < 0x80 := by omega
  rw [first, if_neg h₁, if_pos ⟨h, h'⟩]

theorem first_three {byte : ℕ} (h : 0xE0 ≤ byte) (h' : byte ≤ 0xEF) :
    first byte = ([], ⟨2, byte - 0xE0, if byte = 0xE0 then 0xA0 else 0x80,
      if byte = 0xED then 0x9F else 0xBF⟩) := by
  have h₁ : ¬ byte < 0x80 := by omega
  have h₂ : ¬ (0xC2 ≤ byte ∧ byte ≤ 0xDF) := by omega
  rw [first, if_neg h₁, if_neg h₂, if_pos ⟨h, h'⟩]

theorem first_four {byte : ℕ} (h : 0xF0 ≤ byte) (h' : byte ≤ 0xF4) :
    first byte = ([], ⟨3, byte - 0xF0, if byte = 0xF0 then 0x90 else 0x80,
      if byte = 0xF4 then 0x8F else 0xBF⟩) := by
  have h₁ : ¬ byte < 0x80 := by omega
  have h₂ : ¬ (0xC2 ≤ byte ∧ byte ≤ 0xDF) := by omega
  have h₃ : ¬ (0xE0 ≤ byte ∧ byte ≤ 0xEF) := by omega
  rw [first, if_neg h₁, if_neg h₂, if_neg h₃, if_pos ⟨h, h'⟩]

theorem step_initial (byte : ℕ) : step initial byte = first byte := if_pos rfl

theorem run_two (a b : ℕ) {t : Text} {d : Decoder} (ha : first a = ([], d))
    (hb : d.step b = (t, initial)) : initial.run [a, b] = (t, initial) := by
  simp [run, step_initial, ha, hb]

theorem run_three (a b c : ℕ) {t : Text} {d d' : Decoder} (ha : first a = ([], d))
    (hb : d.step b = ([], d')) (hc : d'.step c = (t, initial)) :
    initial.run [a, b, c] = (t, initial) := by
  simp [run, step_initial, ha, hb, hc]

theorem run_four (a b c e : ℕ) {t : Text} {d d' d'' : Decoder} (ha : first a = ([], d))
    (hb : d.step b = ([], d')) (hc : d'.step c = ([], d'')) (he : d''.step e = (t, initial)) :
    initial.run [a, b, c, e] = (t, initial) := by
  simp [run, step_initial, ha, hb, hc, he]

/-- A character is complete with its last byte. -/
theorem run_encodeChar (c : Char) : initial.run (encodeChar c) = ([c], initial) := by
  have hvalid : c.toNat < 0xD800 ∨ 0xDFFF < c.toNat ∧ c.toNat < 0x110000 := c.valid
  have hc : Char.ofNat c.toNat = c := Char.ofNat_toNat c
  simp only [encodeChar]
  generalize c.toNat = n at hvalid hc ⊢
  subst hc
  split_ifs with h₁ h₂ h₃
  · simp [run, step_initial, first, h₁]
  · exact run_two _ _ (first_two (by omega) (by omega))
      (step_last (by omega) (by omega) (by omega))
  · refine run_three _ _ _ (first_three (by omega) (by omega))
      (step_more (n := n / 64) (k := 0) ?_ ?_ (by omega))
      (step_last (by omega) (by omega) (by omega))
    · split_ifs with hfirst
      · omega
      · omega
    · split_ifs with hfirst
      · omega
      · omega
  · refine run_four _ _ _ _ (first_four (by omega) (by omega))
      (step_more (n := n / 4096) (k := 1) ?_ ?_ (by omega))
      (step_more (n := n / 64) (k := 0) (by omega) (by omega) (by omega))
      (step_last (by omega) (by omega) (by omega))
    · split_ifs with hfirst
      · omega
      · omega
    · split_ifs with hfirst
      · omega
      · omega

theorem run_encode (s : Text) : initial.run (encode s) = (s, initial) := by
  induction s with
  | nil => rfl
  | cons c s ih =>
    have hcons : encode (c :: s) = encodeChar c ++ encode s := List.flatMap_cons
    rw [hcons, run_append, run_encodeChar, ih]
    rfl

theorem decode_encode (s : Text) : decode (encode s) = s := by
  rw [decode, run_encode]
  exact List.append_nil s

theorem encode_lt (s : Text) : ∀ byte ∈ encode s, byte < 256 := by
  intro byte hbyte
  obtain ⟨c, -, hc⟩ := List.mem_flatMap.mp hbyte
  have hvalid : c.toNat < 0xD800 ∨ 0xDFFF < c.toNat ∧ c.toNat < 0x110000 := c.valid
  simp only [encodeChar] at hc
  generalize c.toNat = n at hvalid hc
  split_ifs at hc <;> simp only [List.mem_cons, List.not_mem_nil, or_false] at hc <;> omega

end RoundTrip

section Fatal

def byteOrderMark : Char := Char.ofNat 0xFEFF

def withoutMark : Text → Text
  | [] => []
  | c :: s => if c = byteOrderMark then s else c :: s

/-- `new TextDecoder('utf-8', { fatal: true }).decode(bytes)`: bytes that do not encode a text are
refused, and a byte order mark is dropped. -/
def decodeFatal (bytes : List ℕ) : Option Text :=
  if encode (decode bytes) = bytes then some (withoutMark (decode bytes)) else none

theorem decodeFatal_encode {s : Text} (h : s.head? ≠ some byteOrderMark) :
    decodeFatal (encode s) = some s := by
  rw [decodeFatal, decode_encode, if_pos rfl]
  cases s with
  | nil => rfl
  | cons c s => rw [withoutMark, if_neg fun hc => h (by rw [hc, List.head?_cons])]

end Fatal

end AppBuilder.Encoding.Utf8
