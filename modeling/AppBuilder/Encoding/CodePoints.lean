import AppBuilder.Encoding.Utf16

/-! Strings of UTF-16 code units that need not be well formed, as code points, and the texts that
their UTF-8 stands for. -/
namespace AppBuilder.Encoding.Utf16

def isHighSurrogate (u : ℕ) : Bool := 0xD800 ≤ u && u < 0xDC00

def isLowSurrogate (u : ℕ) : Bool := 0xDC00 ≤ u && u < 0xE000

def pairPoint (high low : ℕ) : ℕ := 0x10000 + 0x400 * (high - 0xD800) + (low - 0xDC00)

/-- The code points of a string. A surrogate that is not in a pair is a code point of its own. -/
def points : List ℕ → List ℕ
  | [] => []
  | [u] => [u]
  | u :: v :: rest =>
    if isHighSurrogate u && isLowSurrogate v then pairPoint u v :: points rest
    else u :: points (v :: rest)

/-- The character of a code point; a surrogate has none. -/
def scalar (point : ℕ) : Char :=
  if point.isValidChar then Char.ofNat point else Utf8.replacement

/-- `value.toWellFormed()` -/
def wellFormed (value : List ℕ) : Text := (points value).map scalar

section Points

variable {u : ℕ} {rest : List ℕ}

theorem points_cons (hu : isHighSurrogate u = false) : points (u :: rest) = u :: points rest := by
  cases rest with
  | nil => rfl
  | cons v rest => rw [points, hu, Bool.false_and, if_neg Bool.false_ne_true]

theorem points_units (c : Char) (rest : List ℕ) :
    points (units c ++ rest) = c.toNat :: points rest := by
  have hc := toNat_bounds c
  unfold units
  split_ifs with hsmall
  · refine points_cons ?_
    simp only [isHighSurrogate, Bool.and_eq_false_iff, decide_eq_false_iff_not]
    omega
  · have hhigh : isHighSurrogate (0xD800 + (c.toNat - 0x10000) / 0x400) = true := by
      simp only [isHighSurrogate, Bool.and_eq_true, decide_eq_true_eq]
      omega
    have hlow : isLowSurrogate (0xDC00 + (c.toNat - 0x10000) % 0x400) = true := by
      simp only [isLowSurrogate, Bool.and_eq_true, decide_eq_true_eq]
      omega
    have hpair : pairPoint (0xD800 + (c.toNat - 0x10000) / 0x400)
        (0xDC00 + (c.toNat - 0x10000) % 0x400) = c.toNat := by
      unfold pairPoint
      omega
    rw [List.cons_append, List.cons_append, List.nil_append, points, hhigh, hlow, Bool.and_self,
      if_pos rfl, hpair]

theorem points_encode (s : Text) : points (encode s) = s.map Char.toNat := by
  induction s with
  | nil => rfl
  | cons c s ih =>
    have hcons : encode (c :: s) = units c ++ encode s := List.flatMap_cons
    rw [hcons, points_units, ih, List.map_cons]

theorem scalar_toNat (c : Char) : scalar c.toNat = c := by
  have hvalid : c.toNat.isValidChar := c.valid
  rw [scalar, if_pos hvalid, Char.ofNat_toNat]

theorem wellFormed_encode (s : Text) : wellFormed (encode s) = s := by
  rw [wellFormed, points_encode, List.map_map]
  conv_rhs => rw [← List.map_id s]
  exact List.map_congr_left fun c _ => scalar_toNat c

theorem toNat_scalar {point : ℕ} (h : point.isValidChar) : (scalar point).toNat = point := by
  rw [scalar, if_pos h, Char.ofNat, dif_pos h]
  rfl

/-- Code points that are the numbers of characters are those characters. -/
theorem map_toNat_scalar {points : List ℕ} (h : ∀ point ∈ points, point.isValidChar) :
    (points.map scalar).map Char.toNat = points := by
  rw [List.map_map]
  conv_rhs => rw [← List.map_id points]
  exact List.map_congr_left fun point hpoint => toNat_scalar (h point hpoint)

end Points

end AppBuilder.Encoding.Utf16
