import AppBuilder.Encoding.Json
import Mathlib.Tactic.NormNum

/-! Times in milliseconds since 1970, and their ISO texts. -/
namespace AppBuilder.Encoding.Date

/-- The day of a civil calendar. -/
structure Civil where
  year : ℕ
  month : ℕ
  day : ℕ
  deriving DecidableEq

/-- The year of an era of 400 years that begins in March, and the day of that year. -/
def yearOfEra (dayOfEra : ℕ) : ℕ × ℕ :=
  let century := min 3 (dayOfEra / 36524)
  let dayOfCentury := dayOfEra - 36524 * century
  let quad := dayOfCentury / 1461
  let dayOfQuad := dayOfCentury - 1461 * quad
  let year := min 3 (dayOfQuad / 365)
  (100 * century + 4 * quad + year, dayOfQuad - 365 * year)

def civilOfEra (era dayOfEra : ℕ) : Civil :=
  let (yearOfEra, dayOfYear) := yearOfEra dayOfEra
  let monthFromMarch := (5 * dayOfYear + 2) / 153
  let year := yearOfEra + 400 * era
  { year := if monthFromMarch < 10 then year else year + 1
    month := if monthFromMarch < 10 then monthFromMarch + 3 else monthFromMarch - 9
    day := dayOfYear - (153 * monthFromMarch + 2) / 5 + 1 }

/-- The civil day that is `days` after the first of March of the year 0. -/
def fromMarch (days : ℕ) : Civil := civilOfEra (days / 146097) (days % 146097)

def toMarch (c : Civil) : ℕ :=
  let year := if c.month ≤ 2 then c.year - 1 else c.year
  let monthFromMarch := if c.month ≤ 2 then c.month + 9 else c.month - 3
  let yearOfEra := year % 400
  let dayOfYear := (153 * monthFromMarch + 2) / 5 + c.day - 1
  146097 * (year / 400) + (365 * yearOfEra + yearOfEra / 4 - yearOfEra / 100 + dayOfYear)

/-- The first of March of the year 0 is 719468 days before 1970. -/
def civil (days : ℕ) : Civil := fromMarch (days + 719468)

def daysOf (c : Civil) : ℕ := toMarch c - 719468

theorem yearOfEra_spec (d : ℕ) (hd : d < 146097) :
    (yearOfEra d).1 < 400 ∧ (yearOfEra d).2 ≤ 365 ∧
      365 * (yearOfEra d).1 + (yearOfEra d).1 / 4 - (yearOfEra d).1 / 100 + (yearOfEra d).2 = d := by
  simp only [yearOfEra]
  have hcentury : min 3 (d / 36524) ≤ 3 := min_le_left _ _
  have hday : d - 36524 * min 3 (d / 36524) ≤ 36524 := by omega
  have hd' : 36524 * min 3 (d / 36524) + (d - 36524 * min 3 (d / 36524)) = d := by omega
  generalize min 3 (d / 36524) = century at hcentury hday hd' ⊢
  generalize d - 36524 * century = r at hday hd' ⊢
  have hquad : r / 1461 ≤ 24 := by omega
  have hr : 1461 * (r / 1461) + (r - 1461 * (r / 1461)) = r := by omega
  have hrest : r - 1461 * (r / 1461) ≤ 1460 := by omega
  generalize r / 1461 = quad at hquad hr hrest ⊢
  generalize r - 1461 * quad = r' at hr hrest ⊢
  have hyear : min 3 (r' / 365) ≤ 3 := min_le_left _ _
  have hlast : r' - 365 * min 3 (r' / 365) ≤ 365 := by omega
  have hr' : 365 * min 3 (r' / 365) + (r' - 365 * min 3 (r' / 365)) = r' := by omega
  generalize min 3 (r' / 365) = year at hyear hlast hr' ⊢
  generalize r' - 365 * year = day at hlast hr' ⊢
  refine ⟨by omega, hlast, ?_⟩
  have h₄ : (100 * century + 4 * quad + year) / 4 = 25 * century + quad := by omega
  have h₁₀₀ : (100 * century + 4 * quad + year) / 100 = century := by omega
  rw [h₄, h₁₀₀]
  omega

theorem month_bounds (dayOfYear : ℕ) (h : dayOfYear ≤ 365) :
    (5 * dayOfYear + 2) / 153 ≤ 11 ∧ (153 * ((5 * dayOfYear + 2) / 153) + 2) / 5 ≤ dayOfYear := by
  omega

theorem toMarch_civilOfEra (era : ℕ) {dayOfEra : ℕ} (h : dayOfEra < 146097) :
    toMarch (civilOfEra era dayOfEra) = 146097 * era + dayOfEra := by
  obtain ⟨hyear, hday, hspec⟩ := yearOfEra_spec _ h
  rw [civilOfEra]
  generalize yearOfEra dayOfEra = p at hyear hday hspec ⊢
  obtain ⟨year, dayOfYear⟩ := p
  obtain ⟨hmonth, hstart⟩ := month_bounds dayOfYear hday
  simp only [toMarch] at hyear hspec ⊢
  obtain ⟨month, hdef⟩ : ∃ month, month = (5 * dayOfYear + 2) / 153 := ⟨_, rfl⟩
  rw [← hdef] at hmonth hstart ⊢
  have hera : (year + 400 * era) / 400 = era := by omega
  have hyearOfEra : (year + 400 * era) % 400 = year := by omega
  have hfromMarch : (if (if month < 10 then month + 3 else month - 9) ≤ 2
      then (if month < 10 then month + 3 else month - 9) + 9
      else (if month < 10 then month + 3 else month - 9) - 3) = month := by
    split_ifs <;> omega
  have hfromYear : (if (if month < 10 then month + 3 else month - 9) ≤ 2
      then (if month < 10 then year + 400 * era else year + 400 * era + 1) - 1
      else (if month < 10 then year + 400 * era else year + 400 * era + 1)) =
      year + 400 * era := by
    split_ifs <;> omega
  rw [hfromMarch, hfromYear, hera, hyearOfEra]
  omega

theorem toMarch_fromMarch (days : ℕ) : toMarch (fromMarch days) = days := by
  rw [fromMarch, toMarch_civilOfEra _ (Nat.mod_lt _ (by norm_num)), Nat.div_add_mod]

theorem daysOf_civil (days : ℕ) : daysOf (civil days) = days :=
  Nat.sub_eq_of_eq_add (toMarch_fromMarch _)

theorem civilOfEra_bounds (era : ℕ) {dayOfEra : ℕ} (h : dayOfEra < 146097) :
    (civilOfEra era dayOfEra).month < 100 ∧ (civilOfEra era dayOfEra).day < 100 ∧
      (civilOfEra era dayOfEra).year ≤ 400 * era + 400 := by
  obtain ⟨hyear, hday, -⟩ := yearOfEra_spec _ h
  rw [civilOfEra]
  generalize yearOfEra dayOfEra = p at hyear hday ⊢
  obtain ⟨year, dayOfYear⟩ := p
  obtain ⟨hmonth, -⟩ := month_bounds dayOfYear hday
  simp only at hyear hday ⊢
  refine ⟨?_, by omega, ?_⟩ <;> split_ifs <;> omega

/-- `n` with `width` decimal digits. -/
def digits : ℕ → ℕ → Text
  | 0, _ => []
  | width + 1, n => digits width (n / 10) ++ [Nat.digitChar (n % 10)]

def ofDigits (s : Text) : ℕ := Nat.ofDigitChars 10 s 0

theorem civil_bounds (days : ℕ) : (civil days).month < 100 ∧ (civil days).day < 100 ∧
    (civil days).year ≤ 400 * ((days + 719468) / 146097) + 400 :=
  civilOfEra_bounds _ (Nat.mod_lt _ (by norm_num))

/-- What an ISO text has after the year. -/
def afterYear (t : ℕ) : Text :=
  '-' :: digits 2 (civil (t / 86400000)).month ++ '-' :: digits 2 (civil (t / 86400000)).day ++
    'T' :: digits 2 (t / 3600000 % 24) ++ ':' :: digits 2 (t / 60000 % 60) ++
    ':' :: digits 2 (t / 1000 % 60) ++ '.' :: digits 3 (t % 1000) ++ ['Z']

/-- `toISOString` -/
def toISOString (t : ℕ) : Text :=
  let c := civil (t / 86400000)
  (if c.year < 10000 then digits 4 c.year else '+' :: digits 6 c.year) ++ afterYear t

/-- What the parts of an ISO text say. -/
def readParts (year : Text) : Text → Option ℕ
  | ['-', m₁, m₀, '-', d₁, d₀, 'T', h₁, h₀, ':', n₁, n₀, ':', s₁, s₀, '.', f₂, f₁, f₀, 'Z'] =>
    some (86400000 * daysOf ⟨ofDigits year, ofDigits [m₁, m₀], ofDigits [d₁, d₀]⟩ +
      3600000 * ofDigits [h₁, h₀] + 60000 * ofDigits [n₁, n₀] + 1000 * ofDigits [s₁, s₀] +
      ofDigits [f₂, f₁, f₀])
  | _ => none

/-- The texts that `toISOString` makes; `Date.parse` reads many more. -/
def readIso (s : Text) : Option ℕ :=
  let t := match s with
    | '+' :: rest => readParts (rest.take 6) (rest.drop 6)
    | _ => readParts (s.take 4) (s.drop 4)
  t.filter fun t => toISOString t = s

/-- `Date.parse`, where `other` reads the texts that `toISOString` does not make. -/
def parse (other : Text → Option ℕ) (s : Text) : Option ℕ := (readIso s).or (other s)

/-- The largest time of a `Date`. -/
def maxTime : ℕ := 8640000000000000

theorem ofDigits_digits (width n : ℕ) (hn : n < 10 ^ width) : ofDigits (digits width n) = n := by
  induction width generalizing n with
  | zero =>
    have hzero : n = 0 := by omega
    subst hzero
    rfl
  | succ width ih =>
    have hlt : n / 10 < 10 ^ width := by
      rw [pow_succ] at hn
      omega
    have hlast : n % 10 < 10 := Nat.mod_lt _ (by norm_num)
    have hprevious := ih (n / 10) hlt
    rw [ofDigits] at hprevious ⊢
    rw [digits, Nat.ofDigitChars_append, hprevious, Nat.ofDigitChars_cons_digitChar_of_lt_ten hlast,
      Nat.ofDigitChars_nil]
    omega

theorem length_digits (width n : ℕ) : (digits width n).length = width := by
  induction width generalizing n with
  | zero => rfl
  | succ width ih => rw [digits, List.length_append, ih, List.length_singleton]

theorem digits_two (n : ℕ) :
    digits 2 n = [Nat.digitChar (n / 10 % 10), Nat.digitChar (n % 10)] := rfl

theorem digits_three (n : ℕ) : digits 3 n =
    [Nat.digitChar (n / 10 / 10 % 10), Nat.digitChar (n / 10 % 10), Nat.digitChar (n % 10)] := rfl

theorem readParts_afterYear (t : ℕ) (year : Text)
    (hyear : ofDigits year = (civil (t / 86400000)).year) :
    readParts year (afterYear t) = some t := by
  obtain ⟨hmonth, hday, -⟩ := civil_bounds (t / 86400000)
  have hmonth := ofDigits_digits 2 _ hmonth
  have hday := ofDigits_digits 2 _ hday
  have hhour := ofDigits_digits 2 (t / 3600000 % 24) (by omega)
  have hminute := ofDigits_digits 2 (t / 60000 % 60) (by omega)
  have hsecond := ofDigits_digits 2 (t / 1000 % 60) (by omega)
  have hmilli := ofDigits_digits 3 (t % 1000) (by omega)
  have hdays := daysOf_civil (t / 86400000)
  rw [digits_two] at hmonth hday hhour hminute hsecond
  rw [digits_three] at hmilli
  simp only [afterYear, digits_two, digits_three, List.cons_append, List.nil_append, readParts,
    hmonth, hday, hhour, hminute, hsecond, hmilli, hyear, hdays, Option.some.injEq]
  omega

theorem year_lt {t : ℕ} (ht : t ≤ maxTime) : (civil (t / 86400000)).year < 10 ^ 6 := by
  obtain ⟨-, -, hyear⟩ := civil_bounds (t / 86400000)
  have hdays : t / 86400000 ≤ 100000000 := Nat.div_le_div_right ht
  have hera : (t / 86400000 + 719468) / 146097 ≤ 700 := by omega
  omega

theorem digitChar_ne_plus (n : ℕ) (hn : n < 10) : Nat.digitChar n ≠ '+' := by
  revert n
  decide

theorem digits_four (n : ℕ) : ∃ rest, digits 4 n = Nat.digitChar (n / 10 / 10 / 10 % 10) :: rest :=
  ⟨_, rfl⟩

theorem readIso_toISOString {t : ℕ} (ht : t ≤ maxTime) : readIso (toISOString t) = some t := by
  have hyear := year_lt ht
  have hparts := readParts_afterYear t
  generalize hrest : afterYear t = rest at hparts
  by_cases hshort : (civil (t / 86400000)).year < 10000
  · have hiso : toISOString t = digits 4 (civil (t / 86400000)).year ++ rest := by
      rw [toISOString, ← hrest]
      exact congrArg (· ++ afterYear t) (if_pos hshort)
    have hread : readIso (digits 4 (civil (t / 86400000)).year ++ rest) =
        (readParts (digits 4 (civil (t / 86400000)).year) rest).filter
          fun t' => toISOString t' = digits 4 (civil (t / 86400000)).year ++ rest := by
      have htake := @List.take_left' _ _ rest _ (length_digits 4 (civil (t / 86400000)).year)
      have hdrop := @List.drop_left' _ _ rest _ (length_digits 4 (civil (t / 86400000)).year)
      obtain ⟨others, hothers⟩ := digits_four (civil (t / 86400000)).year
      have hplus := digitChar_ne_plus _
        (Nat.mod_lt ((civil (t / 86400000)).year / 10 / 10 / 10) (by norm_num : 10 > 0))
      generalize digits 4 (civil (t / 86400000)).year = year at htake hdrop hothers ⊢
      subst hothers
      rw [List.cons_append] at htake hdrop ⊢
      rw [readIso, htake, hdrop]
      intro tail htail
      exact hplus (List.cons.inj htail).1
    rw [hiso, hread, hparts _ (ofDigits_digits 4 _ hshort), Option.filter_some, if_pos]
    exact decide_eq_true hiso
  · have hiso : toISOString t = '+' :: (digits 6 (civil (t / 86400000)).year ++ rest) := by
      rw [toISOString, ← hrest]
      exact congrArg (· ++ afterYear t) (if_neg hshort)
    have htake := @List.take_left' _ _ rest _ (length_digits 6 (civil (t / 86400000)).year)
    have hdrop := @List.drop_left' _ _ rest _ (length_digits 6 (civil (t / 86400000)).year)
    rw [hiso, readIso, htake, hdrop, hparts _ (ofDigits_digits 6 _ hyear), Option.filter_some,
      if_pos]
    exact decide_eq_true hiso

theorem parse_toISOString (other : Text → Option ℕ) {t : ℕ} (ht : t ≤ maxTime) :
    parse other (toISOString t) = some t := by
  rw [parse, readIso_toISOString ht, Option.some_or]

example : toISOString 1785024000000 = text "2026-07-26T00:00:00.000Z" := by decide

end AppBuilder.Encoding.Date
