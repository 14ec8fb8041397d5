import AppBuilder.Encoding.JsonParse
import Mathlib.Data.Nat.Log

/-! Numbers in hexadecimal digits. -/
namespace AppBuilder.Encoding.Hex

/-- The lowest `width` digits of `n`, in lower case. -/
def digits : ℕ → ℕ → Text
  | 0, _ => []
  | width + 1, n => digits width (n / 16) ++ [hexDigit (n % 16)]

def append (n digit : ℕ) : ℕ := 16 * n + digit

/-- The number that the digits spell, in either case. -/
def number (s : Text) : Option ℕ := (s.mapM Json.hexValue).map (·.foldl append 0)

theorem hexValue_hexDigit (n : ℕ) (hn : n < 16) : Json.hexValue (hexDigit n) = some n := by
  revert n
  decide

theorem length_digits (width n : ℕ) : (digits width n).length = width := by
  induction width generalizing n with
  | zero => rfl
  | succ width ih => rw [digits, List.length_append, ih, List.length_singleton]

theorem number_append (s : Text) (c : Char) :
    number (s ++ [c]) = (number s).bind fun n => (Json.hexValue c).map (append n) := by
  unfold number
  rw [List.mapM_append]
  cases s.mapM Json.hexValue with
  | none => rfl
  | some values =>
    cases hc : Json.hexValue c with
    | none => simp [hc]
    | some value => simp [hc, List.foldl_append]

theorem number_digits (width n : ℕ) (hn : n < 16 ^ width) : number (digits width n) = some n := by
  induction width generalizing n with
  | zero =>
    have hzero : n = 0 := by omega
    subst hzero
    rfl
  | succ width ih =>
    have hlt : n / 16 < 16 ^ width := by
      rw [pow_succ] at hn
      omega
    have hlast : n % 16 < 16 := Nat.mod_lt _ (by decide)
    rw [digits, number_append, ih _ hlt, hexValue_hexDigit _ hlast, Option.bind_some,
      Option.map_some, append, Nat.div_add_mod]

end AppBuilder.Encoding.Hex
