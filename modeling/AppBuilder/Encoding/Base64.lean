import AppBuilder.Encoding.Json
import Mathlib.Data.List.GetD
import Mathlib.Data.List.TakeWhile
import Mathlib.Tactic.NormNum

/-! `Buffer`'s `base64url` and `base64`. Bytes are numbers below 256. -/
namespace AppBuilder.Encoding.Base64

def alphabet : Text :=
  text "ABCDEFGHIJKLMNOPQRSTUVWXYZabcdefghijklmnopqrstuvwxyz0123456789-_"

/-- The bytes in groups of six bits; what is missing of the last group is zero. -/
def sextets : List ℕ → List ℕ
  | a :: b :: c :: rest =>
    a / 4 :: (16 * (a % 4) + b / 16) :: (4 * (b % 16) + c / 64) :: c % 64 :: sextets rest
  | [a, b] => [a / 4, 16 * (a % 4) + b / 16, 4 * (b % 16)]
  | [a] => [a / 4, 16 * (a % 4)]
  | [] => []

def bytes : List ℕ → List ℕ
  | w :: x :: y :: z :: rest =>
    (4 * w + x / 16) :: (16 * (x % 16) + y / 4) :: (64 * (y % 4) + z) :: bytes rest
  | [w, x, y] => [4 * w + x / 16, 16 * (x % 16) + y / 4]
  | [w, x] => [4 * w + x / 16]
  | _ => []

def digit (n : ℕ) : Char := alphabet.getD n 'A'

/-- The reader takes both alphabets, and skips what belongs to neither. -/
def value (c : Char) : Option ℕ :=
  if c = '+' then some 62 else if c = '/' then some 63
  else alphabet.findIdx? (· == c)

def encode (input : List ℕ) : Text := (sextets input).map digit

def decode (s : Text) : List ℕ := bytes ((s.takeWhile (· ≠ '=')).filterMap value)

theorem alphabet_eq : alphabet =
    ['A', 'B', 'C', 'D', 'E', 'F', 'G', 'H', 'I', 'J', 'K', 'L', 'M', 'N', 'O', 'P', 'Q', 'R', 'S',
      'T', 'U', 'V', 'W', 'X', 'Y', 'Z', 'a', 'b', 'c', 'd', 'e', 'f', 'g', 'h', 'i', 'j', 'k', 'l',
      'm', 'n', 'o', 'p', 'q', 'r', 's', 't', 'u', 'v', 'w', 'x', 'y', 'z', '0', '1', '2', '3', '4',
      '5', '6', '7', '8', '9', '-', '_'] := String.toList_ofList

theorem value_digit (n : ℕ) (hn : n < 64) : value (digit n) = some n := by
  have hall : ∀ i : Fin 64, value (digit i.val) = some i.val := by
    simp only [value, digit, alphabet_eq]
    decide +kernel
  exact hall ⟨n, hn⟩

theorem digit_ne (n : ℕ) (hn : n < 64) : digit n ≠ '=' := by
  have hnone : '=' ∉ alphabet := by
    rw [alphabet_eq]
    decide
  have hlength : alphabet.length = 64 := by
    rw [alphabet_eq]
    rfl
  have hmem : digit n ∈ alphabet := by
    rw [digit, List.getD_eq_getElem _ _ (hlength ▸ hn)]
    exact List.getElem_mem _
  exact fun h => hnone (h ▸ hmem)

theorem bytes_sextets : (input : List ℕ) → (∀ byte ∈ input, byte < 256) →
    bytes (sextets input) = input
  | a :: b :: c :: rest, h => by
    have ha := h a (by simp)
    have hb := h b (by simp)
    have hc := h c (by simp)
    have hrest := bytes_sextets rest fun byte hbyte => h byte (by simp [hbyte])
    simp only [sextets, bytes, hrest, List.cons.injEq, and_true]
    omega
  | [a, b], h => by
    have ha := h a (by simp)
    have hb := h b (by simp)
    simp only [sextets, bytes, List.cons.injEq, and_true]
    omega
  | [a], h => by
    have ha := h a (by simp)
    simp only [sextets, bytes, List.cons.injEq, and_true]
    omega
  | [], _ => rfl

theorem sextets_lt : (input : List ℕ) → (∀ byte ∈ input, byte < 256) →
    ∀ n ∈ sextets input, n < 64
  | a :: b :: c :: rest, h => by
    have ha := h a (by simp)
    have hb := h b (by simp)
    have hc := h c (by simp)
    have hrest := sextets_lt rest fun byte hbyte => h byte (by simp [hbyte])
    intro n hn
    simp only [sextets, List.mem_cons] at hn
    rcases hn with rfl | rfl | rfl | rfl | hn
    · omega
    · omega
    · omega
    · omega
    · exact hrest n hn
  | [a, b], h => by
    have ha := h a (by simp)
    have hb := h b (by simp)
    intro n hn
    simp only [sextets, List.mem_cons, List.not_mem_nil, or_false] at hn
    omega
  | [a], h => by
    have ha := h a (by simp)
    intro n hn
    simp only [sextets, List.mem_cons, List.not_mem_nil, or_false] at hn
    omega
  | [], _ => fun n hn => nomatch hn

theorem decode_encode {input : List ℕ} (h : ∀ byte ∈ input, byte < 256) :
    decode (encode input) = input := by
  have hlt := sextets_lt input h
  have htake : ((sextets input).map digit).takeWhile (· ≠ '=') = (sextets input).map digit := by
    refine List.takeWhile_eq_self_iff.mpr fun c hc => ?_
    obtain ⟨n, hn, rfl⟩ := List.mem_map.mp hc
    simpa using digit_ne n (hlt n hn)
  have hvalue : ∀ n ∈ sextets input, (value ∘ digit) n = some n := by
    intro n hn
    rw [Function.comp_apply, value_digit n (hlt n hn)]
  have hvalues : ((sextets input).map digit).filterMap value = sextets input := by
    rw [List.filterMap_map, List.filterMap_congr hvalue, List.filterMap_some]
  rw [decode, encode, htake, hvalues, bytes_sextets input h]

section Standard

def standardAlphabet : Text :=
  text "ABCDEFGHIJKLMNOPQRSTUVWXYZabcdefghijklmnopqrstuvwxyz0123456789+/"

def standardDigit (n : ℕ) : Char := standardAlphabet.getD n 'A'

def padding (input : List ℕ) : Text := List.replicate ((3 - input.length % 3) % 3) '='

/-- `buffer.toString('base64')` -/
def encodeStandard (input : List ℕ) : Text := (sextets input).map standardDigit ++ padding input

theorem standardAlphabet_eq : standardAlphabet = alphabet.take 62 ++ ['+', '/'] := by
  rw [alphabet_eq]
  exact String.toList_ofList

/-- The last two digits are the only ones that differ. -/
theorem standardDigit_eq (n : ℕ) (hn : n < 64) :
    standardDigit n = if n = 62 then '+' else if n = 63 then '/' else digit n := by
  have hlength : (alphabet.take 62).length = 62 := by
    rw [alphabet_eq]
    rfl
  rw [standardDigit, standardAlphabet_eq]
  split_ifs with h62 h63
  · rw [h62, List.getD_append_right _ _ _ _ hlength.le, hlength]
    rfl
  · rw [h63, List.getD_append_right _ _ _ _ (by omega), hlength]
    rfl
  · have hlt : n < 62 := by omega
    rw [List.getD_append _ _ _ _ (by omega), digit, List.getD_eq_getElem?_getD,
      List.getD_eq_getElem?_getD, List.getElem?_take_of_lt hlt]

theorem value_standardDigit (n : ℕ) (hn : n < 64) : value (standardDigit n) = some n := by
  rw [standardDigit_eq n hn]
  split_ifs with h62 h63
  · rw [h62]
    rfl
  · rw [h63]
    rfl
  · exact value_digit n hn

theorem standardDigit_ne (n : ℕ) (hn : n < 64) : standardDigit n ≠ '=' := by
  rw [standardDigit_eq n hn]
  split_ifs
  · decide
  · decide
  · exact digit_ne n hn

theorem decode_encodeStandard {input : List ℕ} (h : ∀ byte ∈ input, byte < 256) :
    decode (encodeStandard input) = input := by
  have hlt := sextets_lt input h
  have hdigits : ∀ c ∈ (sextets input).map standardDigit, decide (c ≠ '=') = true := by
    intro c hc
    obtain ⟨n, hn, rfl⟩ := List.mem_map.mp hc
    simpa using standardDigit_ne n (hlt n hn)
  have hpadding : (padding input).takeWhile (· ≠ '=') = [] := by
    rw [padding]
    cases (3 - input.length % 3) % 3 with
    | zero => rfl
    | succ k => rfl
  have htake : (encodeStandard input).takeWhile (· ≠ '=') =
      (sextets input).map standardDigit := by
    rw [encodeStandard, List.takeWhile_append_of_pos hdigits, hpadding, List.append_nil]
  have hvalue : ∀ n ∈ sextets input, (value ∘ standardDigit) n = some n := by
    intro n hn
    rw [Function.comp_apply, value_standardDigit n (hlt n hn)]
  have hvalues : ((sextets input).map standardDigit).filterMap value = sextets input := by
    rw [List.filterMap_map, List.filterMap_congr hvalue, List.filterMap_some]
  rw [decode, htake, hvalues, bytes_sextets input h]

end Standard

end AppBuilder.Encoding.Base64
