import AppBuilder.Encoding.Json
import Mathlib.Data.List.TakeWhile
import Mathlib.Data.Rat.Defs
import Mathlib.Tactic.IntervalCases

/-! `JSON.parse`, and that it reads back what `JSON.stringify` writes. -/
namespace AppBuilder.Encoding

section Properties

variable {α : Type}

/-- An array index, which is listed before other keys and in numeric order. -/
def indexOf? (key : Text) : Option ℕ :=
  let n := key.foldl (fun n c => 10 * n + (c.toNat - '0'.toNat)) 0
  if key = Nat.toDigits 10 n ∧ n < 2 ^ 32 - 1 then some n else none

/-- The order of two keys of an object, the second of which was added later. -/
def keyBefore (a b : Text) : Bool :=
  match indexOf? a, indexOf? b with
  | some i, some j => i < j
  | some _, none => true
  | none, some _ => false
  | none, none => true

/-- Define a property, whose place is kept if it exists. -/
def defineMember (members : List (Text × α)) (key : Text) (value : α) : List (Text × α) :=
  if members.any (·.1 == key) then members.map fun m => if m.1 == key then (key, value) else m
  else members.takeWhile (fun m => keyBefore m.1 key) ++
    (key, value) :: members.dropWhile fun m => keyBefore m.1 key

/-- `Object.fromEntries` -/
def fromEntries (entries : List (Text × α)) : List (Text × α) :=
  entries.foldl (fun members entry => defineMember members entry.1 entry.2) []

/-- The own properties of an object: each key once, the indices first. -/
structure InOrder (members : List (Text × α)) : Prop where
  nodup : (members.map (·.1)).Nodup
  sorted : members.Pairwise fun a b => keyBefore a.1 b.1 = true

theorem defineMember_last {members : List (Text × α)} {key : Text} {value : α}
    (h : InOrder (members ++ [(key, value)])) :
    defineMember members key value = members ++ [(key, value)] := by
  have hnew : members.any (·.1 == key) = false := by
    rw [List.any_eq_false]
    intro m hm
    have hnodup := h.nodup
    rw [List.map_append, List.nodup_append] at hnodup
    simpa using hnodup.2.2 m.1 (List.mem_map_of_mem hm) key (by simp)
  have hbefore : ∀ m ∈ members, keyBefore m.1 key = true := fun m hm =>
    (List.pairwise_append.mp h.sorted).2.2 m hm _ (List.mem_singleton_self _)
  rw [defineMember, hnew, if_neg (by simp), List.takeWhile_eq_self_iff.mpr hbefore,
    List.dropWhile_eq_nil_iff.mpr hbefore]

theorem InOrder.of_append {as bs : List (Text × α)} (h : InOrder (as ++ bs)) : InOrder as := by
  refine ⟨?_, (List.pairwise_append.mp h.sorted).1⟩
  have hnodup := h.nodup
  rw [List.map_append, List.nodup_append] at hnodup
  exact hnodup.1

/-- Some of the keys, in an order that is known to be right. -/
theorem inOrder_of_sublist {members : List (Text × α)} (keys : List Text)
    (h : (members.map (·.1)).Sublist keys) (hnodup : keys.Nodup)
    (hsorted : keys.Pairwise fun a b => keyBefore a b = true) : InOrder members :=
  ⟨hnodup.sublist h, List.pairwise_map.mp (hsorted.sublist h)⟩

/-- Properties that are in order are defined one after another. -/
theorem foldl_defineMember {as bs : List (Text × α)} (h : InOrder (as ++ bs)) :
    bs.foldl (fun members entry => defineMember members entry.1 entry.2) as = as ++ bs := by
  induction bs generalizing as with
  | nil => simp
  | cons b bs ih =>
    have hb : InOrder (as ++ [(b.1, b.2)]) := by
      refine @InOrder.of_append _ _ bs ?_
      simpa using h
    rw [List.foldl_cons, defineMember_last hb, ih (by simpa using h)]
    simp

end Properties

namespace Json

def isNumberChar (c : Char) : Bool :=
  c.isDigit || c == '-' || c == '+' || c == '.' || c == 'e' || c == 'E'

/-- How numbers are written and read. -/
structure NumberText (N : Type) where
  print : N → Text
  read : Text → Option N
  read_print : ∀ n, read (print n) = some n
  first : ∀ n, ∃ c rest, print n = c :: rest ∧ (c = '-' ∨ c.isDigit = true)
  chars : ∀ n, ∀ c ∈ print n, isNumberChar c = true

section Literals

def afterDigits (s : Text) : Option Text :=
  if (s.head?.map Char.isDigit).getD false then some (s.dropWhile Char.isDigit) else none

def afterInteger : Text → Option Text
  | '0' :: rest => some rest
  | s => afterDigits s

def afterFraction : Text → Option Text
  | '.' :: rest => afterDigits rest
  | s => some s

def afterExponent : Text → Option Text
  | [] => some []
  | c :: rest =>
    if c = 'e' ∨ c = 'E' then
      match rest with
      | '+' :: digits => afterDigits digits
      | '-' :: digits => afterDigits digits
      | digits => afterDigits digits
    else some (c :: rest)

/-- `-?(0|[1-9]\d*)(\.\d+)?([eE][+-]?\d+)?` -/
def isNumberLiteral (s : Text) : Bool :=
  let magnitude := match s with
    | '-' :: rest => rest
    | s => s
  s.all isNumberChar &&
    ((afterInteger magnitude).bind afterFraction).bind afterExponent == some []

/-- A number as it is spelled. -/
structure NumberLiteral where
  text : Text
  valid : isNumberLiteral text = true
  deriving DecidableEq

theorem head_of_afterDigits {s rest : Text} (h : afterDigits s = some rest) :
    ∃ c tail, s = c :: tail ∧ c.isDigit = true := by
  unfold afterDigits at h
  split_ifs at h with hdigit
  cases s with
  | nil => cases hdigit
  | cons c tail => exact ⟨c, tail, rfl, hdigit⟩

theorem head_of_afterInteger {s rest : Text} (h : afterInteger s = some rest) :
    ∃ c tail, s = c :: tail ∧ c.isDigit = true := by
  unfold afterInteger at h
  split at h
  · exact ⟨'0', _, rfl, by decide⟩
  · exact head_of_afterDigits h

theorem NumberLiteral.first (n : NumberLiteral) :
    ∃ c rest, n.text = c :: rest ∧ (c = '-' ∨ c.isDigit = true) := by
  have hvalid := n.valid
  simp only [isNumberLiteral, Bool.and_eq_true, beq_iff_eq] at hvalid
  obtain ⟨-, hgrammar⟩ := hvalid
  obtain ⟨_, hfraction, -⟩ := Option.bind_eq_some_iff.mp hgrammar
  obtain ⟨_, hinteger, -⟩ := Option.bind_eq_some_iff.mp hfraction
  split at hinteger
  · rename_i rest htext
    exact ⟨'-', rest, htext, .inl rfl⟩
  · obtain ⟨c, tail, htext, hc⟩ := head_of_afterInteger hinteger
    exact ⟨c, tail, htext, .inr hc⟩

theorem NumberLiteral.chars (n : NumberLiteral) : ∀ c ∈ n.text, isNumberChar c = true := by
  have hvalid := n.valid
  simp only [isNumberLiteral, Bool.and_eq_true] at hvalid
  exact List.all_eq_true.mp hvalid.1

def numberLiterals : NumberText NumberLiteral where
  print := NumberLiteral.text
  read s := if h : isNumberLiteral s = true then some ⟨s, h⟩ else none
  read_print n := dif_pos n.valid
  first := NumberLiteral.first
  chars := NumberLiteral.chars

example : isNumberLiteral (text "-12.50e+3") = true := by decide

end Literals

def isSpace (c : Char) : Bool := c == ' ' || c == '\n' || c == '\r' || c == '\t'

def skipSpace (s : Text) : Text := s.dropWhile isSpace

def hexValue (c : Char) : Option ℕ :=
  if c.isDigit then some (c.toNat - '0'.toNat)
  else if 'a' ≤ c ∧ c ≤ 'f' then some (c.toNat - 'a'.toNat + 10)
  else if 'A' ≤ c ∧ c ≤ 'F' then some (c.toNat - 'A'.toNat + 10)
  else none

/-- The code unit of four hexadecimal digits. -/
def codeUnit : Text → Option (ℕ × Text)
  | a :: b :: c :: d :: rest => do
    let a ← hexValue a
    let b ← hexValue b
    let c ← hexValue c
    let d ← hexValue d
    return (4096 * a + 256 * b + 16 * c + d, rest)
  | _ => none

/-- What follows a backslash. A lone surrogate is no character. -/
def readEscape : Text → Option (Char × Text)
  | '"' :: rest => some ('"', rest)
  | '\\' :: rest => some ('\\', rest)
  | '/' :: rest => some ('/', rest)
  | 'b' :: rest => some (Char.ofNat 8, rest)
  | 'f' :: rest => some (Char.ofNat 12, rest)
  | 'n' :: rest => some (Char.ofNat 10, rest)
  | 'r' :: rest => some (Char.ofNat 13, rest)
  | 't' :: rest => some (Char.ofNat 9, rest)
  | 'u' :: rest =>
    (codeUnit rest).bind fun (unit, rest) =>
      if 0xD800 ≤ unit ∧ unit < 0xDC00 then
        match rest with
        | '\\' :: 'u' :: rest =>
          (codeUnit rest).bind fun (low, rest) =>
            if 0xDC00 ≤ low ∧ low < 0xE000 then
              some (Char.ofNat (0x10000 + 0x400 * (unit - 0xD800) + (low - 0xDC00)), rest)
            else none
        | _ => none
      else if 0xDC00 ≤ unit ∧ unit < 0xE000 then none
      else some (Char.ofNat unit, rest)
  | _ => none

/-- A string after its opening quote. -/
def readString : ℕ → Text → Option (Text × Text)
  | fuel + 1, '\\' :: rest =>
    (readEscape rest).bind fun (c, rest) =>
      (readString fuel rest).map fun (s, rest) => (c :: s, rest)
  | _ + 1, '"' :: rest => some ([], rest)
  | fuel + 1, c :: rest =>
    if c.toNat < 32 then none
    else (readString fuel rest).map fun (s, rest) => (c :: s, rest)
  | _, _ => none

variable {N : Type} (numbers : NumberText N)

def readScalar : Text → Option (Json N × Text)
  | 'n' :: 'u' :: 'l' :: 'l' :: rest => some (.null, rest)
  | 't' :: 'r' :: 'u' :: 'e' :: rest => some (.bool true, rest)
  | 'f' :: 'a' :: 'l' :: 's' :: 'e' :: rest => some (.bool false, rest)
  | s => (numbers.read (s.takeWhile isNumberChar)).map fun n =>
    (.number n, s.dropWhile isNumberChar)

mutual

def readValue : ℕ → Text → Option (Json N × Text)
  | 0, _ => none
  | fuel + 1, s =>
    match skipSpace s with
    | '"' :: rest => (readString (rest.length + 1) rest).map fun (s, rest) => (.string s, rest)
    | '[' :: rest =>
      match skipSpace rest with
      | ']' :: rest => some (.array [], rest)
      | rest => (readElements fuel rest).map fun (xs, rest) => (.array xs, rest)
    | '{' :: rest =>
      match skipSpace rest with
      | '}' :: rest => some (.object [], rest)
      | rest => (readMembers fuel [] rest).map fun (members, rest) => (.object members, rest)
    | s => readScalar numbers s

/-- The elements of an array that is not empty, up to its end. -/
def readElements : ℕ → Text → Option (List (Json N) × Text)
  | 0, _ => none
  | fuel + 1, s =>
    (readValue fuel s).bind fun (x, rest) =>
      match skipSpace rest with
      | ',' :: rest => (readElements fuel rest).map fun (xs, rest) => (x :: xs, rest)
      | ']' :: rest => some ([x], rest)
      | _ => none

/-- The properties of an object that is not empty, up to its end. -/
def readMembers : ℕ → List (Text × Json N) → Text → Option (List (Text × Json N) × Text)
  | 0, _, _ => none
  | fuel + 1, members, s =>
    match skipSpace s with
    | '"' :: rest =>
      (readString (rest.length + 1) rest).bind fun (key, rest) =>
        match skipSpace rest with
        | ':' :: rest =>
          (readValue fuel rest).bind fun (value, rest) =>
            match skipSpace rest with
            | ',' :: rest => readMembers fuel (defineMember members key value) rest
            | '}' :: rest => some (defineMember members key value, rest)
            | _ => none
        | _ => none
    | _ => none

end

section Strings

theorem readEscape_control (n : ℕ) (hn : n < 32) (rest : Text) :
    readEscape ('u' :: '0' :: '0' :: hexDigit (n / 16) :: hexDigit (n % 16) :: rest) =
      some (Char.ofNat n, rest) := by
  interval_cases n <;> rfl

/-- A quoted character is read back. -/
theorem readString_quoteChar (fuel : ℕ) (c : Char) (rest : Text) :
    readString (fuel + 1) (quoteChar c ++ rest) =
      (readString fuel rest).map fun (s, rest) => (c :: s, rest) := by
  unfold quoteChar
  split_ifs with hquote hback h8 h9 h10 h12 h13 hcontrol
  · subst hquote
    rfl
  · subst hback
    rfl
  · subst h8
    rfl
  · subst h9
    rfl
  · subst h10
    rfl
  · subst h12
    rfl
  · subst h13
    rfl
  · have hescape := readEscape_control c.toNat hcontrol rest
    rw [Char.ofNat_toNat] at hescape
    simp only [List.cons_append, List.nil_append, readString, hescape, Option.bind_some]
  · rw [List.singleton_append, readString.eq_3 _ _ _ hback hquote, if_neg hcontrol]

theorem readString_quote (s rest : Text) {fuel : ℕ} (hfuel : s.length < fuel) :
    readString fuel (s.flatMap quoteChar ++ '"' :: rest) = some (s, rest) := by
  induction s generalizing fuel with
  | nil =>
    obtain ⟨fuel, rfl⟩ := Nat.exists_eq_succ_of_ne_zero (Nat.ne_of_gt hfuel)
    rfl
  | cons c s ih =>
    obtain ⟨fuel, rfl⟩ := Nat.exists_eq_succ_of_ne_zero (Nat.ne_of_gt (Nat.zero_lt_of_lt hfuel))
    rw [List.flatMap_cons, List.append_assoc, readString_quoteChar,
      ih (Nat.lt_of_succ_lt_succ hfuel)]
    rfl

theorem length_le_quote (s : Text) : s.length ≤ (s.flatMap quoteChar).length := by
  induction s with
  | nil => rfl
  | cons c s ih =>
    have hc : 1 ≤ (quoteChar c).length := by
      unfold quoteChar
      split_ifs <;> simp
    rw [List.flatMap_cons, List.length_append, List.length_cons]
    omega

end Strings

section Values

theorem skipSpace_cons {c : Char} (rest : Text) (hc : isSpace c = false) :
    skipSpace (c :: rest) = c :: rest := by
  rw [skipSpace, List.dropWhile_cons, hc]
  rfl

variable {numbers}

mutual

/-- A value that JSON can carry as it is. -/
def IsJson : Json N → Prop
  | .undefined => False
  | .null | .bool _ | .number _ | .string _ => True
  | .array elements => AllJson elements
  | .object members => InOrder members ∧ MembersJson members

def AllJson : List (Json N) → Prop
  | [] => True
  | x :: xs => IsJson x ∧ AllJson xs

def MembersJson : List (Text × Json N) → Prop
  | [] => True
  | (_, value) :: rest => IsJson value ∧ MembersJson rest

end

theorem allJson_map {α : Type} {f : α → Json N} (hf : ∀ a, IsJson (f a)) (l : List α) :
    AllJson (l.map f) := by
  induction l with
  | nil => trivial
  | cons a l ih => exact ⟨hf a, ih⟩

/-- What may follow a number. -/
def EndsNumber (rest : Text) : Prop := ∀ c, rest.head? = some c → isNumberChar c = false

theorem readValue_number (n : N) {rest : Text} (hrest : EndsNumber rest) (fuel : ℕ) :
    readValue numbers (fuel + 1) (numbers.print n ++ rest) = some (.number n, rest) := by
  obtain ⟨c, tail, heq, hc⟩ := numbers.first n
  have hne : ∀ x : Char, x ≠ '-' → x.isDigit = false → c ≠ x := by
    rintro x hdash hdigit rfl
    rcases hc with hc | hc
    · exact hdash hc
    · rw [hdigit] at hc
      cases hc
  have hspace : isSpace c = false := by
    simp only [isSpace, Bool.or_eq_false_iff, beq_eq_false_iff_ne]
    exact ⟨⟨⟨hne _ (by decide) (by decide), hne _ (by decide) (by decide)⟩,
      hne _ (by decide) (by decide)⟩, hne _ (by decide) (by decide)⟩
  have htake : (numbers.print n ++ rest).takeWhile isNumberChar = numbers.print n ∧
      (numbers.print n ++ rest).dropWhile isNumberChar = rest := by
    rw [List.takeWhile_append_of_pos (numbers.chars n), List.dropWhile_append_of_pos (numbers.chars n)]
    cases rest with
    | nil => simp
    | cons d rest => simp [hrest d rfl]
  have hscalar : readScalar numbers (numbers.print n ++ rest) = some (.number n, rest) := by
    unfold readScalar
    split
    · rename_i h
      rw [heq] at h
      exact absurd (List.cons.inj h).1 (hne _ (by decide) (by decide))
    · rename_i h
      rw [heq] at h
      exact absurd (List.cons.inj h).1 (hne _ (by decide) (by decide))
    · rename_i h
      rw [heq] at h
      exact absurd (List.cons.inj h).1 (hne _ (by decide) (by decide))
    · rw [htake.1, htake.2, numbers.read_print]
      rfl
  have hskip : skipSpace (numbers.print n ++ rest) = numbers.print n ++ rest := by
    rw [heq, List.cons_append]
    exact skipSpace_cons _ hspace
  rw [readValue, hskip]
  split
  · rename_i h
    rw [heq] at h
    exact absurd (List.cons.inj h).1 (hne _ (by decide) (by decide))
  · rename_i h
    rw [heq] at h
    exact absurd (List.cons.inj h).1 (hne _ (by decide) (by decide))
  · rename_i h
    rw [heq] at h
    exact absurd (List.cons.inj h).1 (hne _ (by decide) (by decide))
  · exact hscalar

theorem readValue_string (s rest : Text) (fuel : ℕ) :
    readValue numbers (fuel + 1) (quote s ++ rest) = some (.string s, rest) := by
  have hfuel : s.length < (s.flatMap quoteChar ++ '"' :: rest).length + 1 := by
    have hs := length_le_quote s
    rw [List.length_append]
    omega
  have hread := readString_quote s rest hfuel
  have hquote : quote s ++ rest = '"' :: (s.flatMap quoteChar ++ '"' :: rest) := by simp [quote]
  rw [hquote, readValue, skipSpace_cons _ (by decide)]
  simp only [hread]
  rfl

mutual

/-- How much fuel a value takes. -/
def cost : Json N → ℕ
  | .undefined | .null | .bool _ | .number _ | .string _ => 1
  | .array elements => 1 + costElements elements
  | .object members => 1 + costMembers members

def costElements : List (Json N) → ℕ
  | [] => 0
  | x :: xs => cost x + 1 + costElements xs

def costMembers : List (Text × Json N) → ℕ
  | [] => 0
  | (_, value) :: rest => cost value + 1 + costMembers rest

end

variable (numbers) in
/-- The text of a value does not start like the end of an array. -/
theorem stringify_starts {v : Json N} (hv : IsJson v) : ∃ c rest,
    stringify numbers.print v = some (c :: rest) ∧ isSpace c = false ∧ c ≠ ']' := by
  cases v with
  | undefined => cases hv
  | null => exact ⟨_, _, rfl, by decide, by decide⟩
  | bool b => cases b <;> exact ⟨_, _, rfl, by decide, by decide⟩
  | number n =>
    obtain ⟨c, rest, heq, hc⟩ := numbers.first n
    refine ⟨c, rest, by rw [stringify, heq], ?_⟩
    rcases hc with rfl | hc
    · decide
    · have hne : ∀ x : Char, x.isDigit = false → c ≠ x := by
        rintro x hx rfl
        rw [hx] at hc
        cases hc
      refine ⟨?_, hne _ (by decide)⟩
      simp only [isSpace, Bool.or_eq_false_iff, beq_eq_false_iff_ne]
      exact ⟨⟨⟨hne _ (by decide), hne _ (by decide)⟩, hne _ (by decide)⟩, hne _ (by decide)⟩
  | string s => exact ⟨_, _, rfl, by decide, by decide⟩
  | array elements => exact ⟨_, _, rfl, by decide, by decide⟩
  | object members => exact ⟨_, _, rfl, by decide, by decide⟩

variable (numbers) in
theorem stringify_isSome {v : Json N} (hv : IsJson v) :
    ∃ t, stringify numbers.print v = some t := by
  obtain ⟨c, rest, h, -⟩ := stringify_starts numbers hv
  exact ⟨_, h⟩

theorem endsNumber_comma (rest : Text) : EndsNumber (',' :: rest) := by
  rintro c ⟨⟩
  decide

theorem endsNumber_bracket (rest : Text) : EndsNumber (']' :: rest) := by
  rintro c ⟨⟩
  decide

theorem endsNumber_brace (rest : Text) : EndsNumber ('}' :: rest) := by
  rintro c ⟨⟩
  decide

theorem readValue_array {fuel : ℕ} {s rest : Text} {xs : List (Json N)} {c : Char} {tail : Text}
    (hs : s = c :: tail) (hspace : isSpace c = false) (hc : c ≠ ']')
    (h : readElements numbers fuel s = some (xs, rest)) :
    readValue numbers (fuel + 1) ('[' :: s) = some (.array xs, rest) := by
  rw [readValue, skipSpace_cons _ (by decide)]
  simp only
  rw [hs, skipSpace_cons _ hspace, ← hs]
  split
  · exact absurd (List.cons.inj hs).1.symm hc
  · rw [h]
    rfl

theorem readValue_object {fuel : ℕ} {s rest tail : Text} {members : List (Text × Json N)}
    (hs : s = '"' :: tail) (h : readMembers numbers fuel [] s = some (members, rest)) :
    readValue numbers (fuel + 1) ('{' :: s) = some (.object members, rest) := by
  rw [readValue, skipSpace_cons _ (by decide)]
  simp only
  rw [hs, skipSpace_cons _ (by decide), ← hs]
  split
  · exact absurd (List.cons.inj hs).1 (by decide)
  · rw [h]
    rfl

/-- What is read after a key. -/
def readMember (fuel : ℕ) (members : List (Text × Json N)) (key s : Text) :
    Option (List (Text × Json N) × Text) :=
  (readValue numbers fuel s).bind fun (value, rest) =>
    match skipSpace rest with
    | ',' :: rest => readMembers numbers fuel (defineMember members key value) rest
    | '}' :: rest => some (defineMember members key value, rest)
    | _ => none

theorem readMembers_head (fuel : ℕ) (members : List (Text × Json N)) (key s : Text) :
    readMembers numbers (fuel + 1) members (quote key ++ ':' :: s) =
      @readMember _ numbers fuel members key s := by
  have hfuel : key.length < (key.flatMap quoteChar ++ '"' :: ':' :: s).length + 1 := by
    have hs := length_le_quote key
    rw [List.length_append]
    omega
  have hquote : quote key ++ ':' :: s = '"' :: (key.flatMap quoteChar ++ '"' :: ':' :: s) := by
    simp [quote]
  rw [hquote, readMembers, skipSpace_cons _ (by decide)]
  simp only [readString_quote key (':' :: s) hfuel, Option.bind_some]
  rw [skipSpace_cons _ (by decide)]
  rfl

theorem exists_fuel {n fuel : ℕ} (h : 1 + n ≤ fuel) : ∃ less, fuel = less + 1 ∧ n ≤ less :=
  ⟨fuel - 1, by omega, by omega⟩

mutual

/-- What is written of a value is read back, up to where it ends. -/
theorem readValue_stringify : (v : Json N) → IsJson v → ∀ (fuel : ℕ) (rest : Text),
    cost v ≤ fuel → EndsNumber rest → ∃ t, stringify numbers.print v = some t ∧
      readValue numbers fuel (t ++ rest) = some (v, rest)
  | .undefined, hv => hv.elim
  | .null, _ => fun fuel rest hfuel _ => by
    obtain ⟨fuel, rfl, -⟩ := exists_fuel (n := 0) hfuel
    refine ⟨_, rfl, ?_⟩
    rw [readValue]
    rfl
  | .bool b, _ => fun fuel rest hfuel _ => by
    obtain ⟨fuel, rfl, -⟩ := exists_fuel (n := 0) hfuel
    refine ⟨_, rfl, ?_⟩
    rw [readValue]
    cases b <;> rfl
  | .number n, _ => fun fuel rest hfuel hrest => by
    obtain ⟨fuel, rfl, -⟩ := exists_fuel (n := 0) hfuel
    exact ⟨_, rfl, readValue_number n hrest fuel⟩
  | .string s, _ => fun fuel rest hfuel _ => by
    obtain ⟨fuel, rfl, -⟩ := exists_fuel (n := 0) hfuel
    exact ⟨_, rfl, readValue_string s rest fuel⟩
  | .array elements, hv => fun fuel rest hfuel _ => by
    obtain ⟨fuel, rfl, hless⟩ := exists_fuel (n := costElements elements) hfuel
    refine ⟨_, rfl, ?_⟩
    cases elements with
    | nil =>
      rw [readValue]
      rfl
    | cons x xs =>
      have hread := readElements_stringify (x :: xs) hv (List.cons_ne_nil _ _) fuel rest hless
      obtain ⟨c, tail, hstarts, hspace, hc⟩ := stringify_starts numbers hv.1
      obtain ⟨tail', htail⟩ : ∃ tail', commas (stringifyElements numbers.print (x :: xs)) =
          c :: tail' := by
        rw [stringifyElements, hstarts]
        cases stringifyElements numbers.print xs with
        | nil => exact ⟨_, rfl⟩
        | cons u us => exact ⟨_, rfl⟩
      rw [List.cons_append, List.cons_append, List.append_assoc]
      exact readValue_array (by rw [htail]; rfl) hspace hc hread
  | .object members, hv => fun fuel rest hfuel _ => by
    obtain ⟨fuel, rfl, hless⟩ := exists_fuel (n := costMembers members) hfuel
    refine ⟨_, rfl, ?_⟩
    cases members with
    | nil =>
      rw [readValue]
      rfl
    | cons m ms =>
      have hread := readMembers_stringify (m :: ms) hv.2 (List.cons_ne_nil _ _) fuel [] rest hless
      rw [foldl_defineMember (by simpa using hv.1)] at hread
      obtain ⟨tail, htail⟩ : ∃ tail, commas (stringifyMembers numbers.print (m :: ms)) =
          '"' :: tail := by
        obtain ⟨t, ht⟩ := stringify_isSome numbers hv.2.1
        rw [stringifyMembers, ht]
        cases stringifyMembers numbers.print ms with
        | nil => exact ⟨_, rfl⟩
        | cons u us => exact ⟨_, rfl⟩
      rw [List.cons_append, List.cons_append, List.append_assoc]
      exact readValue_object (by rw [htail]; rfl) hread

theorem readElements_stringify : (xs : List (Json N)) → AllJson xs → xs ≠ [] →
    ∀ (fuel : ℕ) (rest : Text), costElements xs ≤ fuel →
      readElements numbers fuel (commas (stringifyElements numbers.print xs) ++ ']' :: rest) =
        some (xs, rest)
  | [], _, hne => absurd rfl hne
  | x :: xs, h, _ => fun fuel rest hfuel => by
    have hcost : 1 + (cost x + costElements xs) ≤ fuel := by
      rw [costElements] at hfuel
      omega
    obtain ⟨fuel, rfl, hless⟩ := exists_fuel hcost
    cases xs with
    | nil =>
      obtain ⟨t, ht, hread⟩ := readValue_stringify x h.1 fuel (']' :: rest) (by omega)
        (endsNumber_bracket rest)
      simp only [stringifyElements, ht, Option.getD_some, commas]
      rw [readElements, hread]
      rfl
    | cons y ys =>
      have hrest := readElements_stringify (y :: ys) h.2 (List.cons_ne_nil _ _) fuel rest (by omega)
      obtain ⟨t, ht, hread⟩ := readValue_stringify x h.1 fuel
        (',' :: (commas (stringifyElements numbers.print (y :: ys)) ++ ']' :: rest)) (by omega)
        (endsNumber_comma _)
      have htext : commas (stringifyElements numbers.print (x :: y :: ys)) ++ ']' :: rest =
          t ++ ',' :: (commas (stringifyElements numbers.print (y :: ys)) ++ ']' :: rest) := by
        rw [stringifyElements, ht, Option.getD_some, commas_cons t (by simp [stringifyElements])]
        simp
      rw [htext, readElements, hread]
      simp only [Option.bind_some]
      rw [skipSpace_cons _ (by decide)]
      simp only [hrest]
      rfl

theorem readMembers_stringify : (ms : List (Text × Json N)) → MembersJson ms → ms ≠ [] →
    ∀ (fuel : ℕ) (members : List (Text × Json N)) (rest : Text), costMembers ms ≤ fuel →
      readMembers numbers fuel members
        (commas (stringifyMembers numbers.print ms) ++ '}' :: rest) =
        some (ms.foldl (fun members entry => defineMember members entry.1 entry.2) members, rest)
  | [], _, hne => absurd rfl hne
  | (key, value) :: ms, h, _ => fun fuel members rest hfuel => by
    have hcost : 1 + (cost value + costMembers ms) ≤ fuel := by
      rw [costMembers] at hfuel
      omega
    obtain ⟨fuel, rfl, hless⟩ := exists_fuel hcost
    cases ms with
    | nil =>
      obtain ⟨t, ht, hread⟩ := readValue_stringify value h.1 fuel ('}' :: rest) (by omega)
        (endsNumber_brace rest)
      simp only [stringifyMembers, ht, commas]
      rw [List.append_assoc, List.cons_append, readMembers_head, readMember, hread]
      rfl
    | cons m ms =>
      have hrest := readMembers_stringify (m :: ms) h.2 (List.cons_ne_nil _ _) fuel
        (defineMember members key value) rest (by omega)
      obtain ⟨t, ht, hread⟩ := readValue_stringify value h.1 fuel
        (',' :: (commas (stringifyMembers numbers.print (m :: ms)) ++ '}' :: rest)) (by omega)
        (endsNumber_comma _)
      obtain ⟨t', ht'⟩ := stringify_isSome numbers h.2.1
      have hne : stringifyMembers numbers.print (m :: ms) ≠ [] := by
        rw [stringifyMembers, ht']
        exact List.cons_ne_nil _ _
      have htext : commas (stringifyMembers numbers.print ((key, value) :: m :: ms)) ++ '}' :: rest =
          quote key ++ ':' :: (t ++ ',' ::
            (commas (stringifyMembers numbers.print (m :: ms)) ++ '}' :: rest)) := by
        rw [stringifyMembers, ht]
        simp only
        rw [commas_cons _ hne]
        simp
      rw [htext, readMembers_head, readMember, hread]
      simp only [Option.bind_some]
      rw [skipSpace_cons _ (by decide)]
      exact hrest

end

mutual

theorem cost_le : (v : Json N) → IsJson v → ∀ t, stringify numbers.print v = some t →
    cost v ≤ t.length
  | .undefined, hv => hv.elim
  | .null, _ => by
    rintro t ⟨⟩
    simp [cost, text]
  | .bool b, _ => by
    rintro t ⟨⟩
    cases b <;> simp [cost, text]
  | .number n, _ => by
    rintro t ⟨⟩
    obtain ⟨c, rest, heq, -⟩ := numbers.first n
    rw [heq]
    exact Nat.succ_le_succ (Nat.zero_le _)
  | .string s, _ => by
    rintro t ⟨⟩
    exact Nat.succ_le_succ (Nat.zero_le _)
  | .array elements, hv => by
    rintro t ⟨⟩
    have hsum := costElements_le elements hv
    rw [cost]
    by_cases hne : stringifyElements numbers.print elements = []
    · rw [hne] at hsum ⊢
      simp only [List.map_nil, List.sum_nil] at hsum
      simp [commas]
      omega
    · have hlength := length_commas _ hne
      simp only [List.length_append, List.length_cons, List.length_nil]
      omega
  | .object members, hv => by
    rintro t ⟨⟩
    have hsum := costMembers_le members hv.2
    rw [cost]
    by_cases hne : stringifyMembers numbers.print members = []
    · rw [hne] at hsum ⊢
      simp only [List.map_nil, List.sum_nil] at hsum
      simp [commas]
      omega
    · have hlength := length_commas _ hne
      simp only [List.length_append, List.length_cons, List.length_nil]
      omega

theorem costElements_le : (xs : List (Json N)) → AllJson xs →
    costElements xs ≤ ((stringifyElements numbers.print xs).map fun t => t.length + 1).sum
  | [], _ => le_rfl
  | x :: xs, h => by
    obtain ⟨t, ht⟩ := stringify_isSome numbers h.1
    have hx := cost_le x h.1 t ht
    have hxs := costElements_le xs h.2
    rw [costElements, stringifyElements, ht, Option.getD_some, List.map_cons, List.sum_cons]
    omega

theorem costMembers_le : (ms : List (Text × Json N)) → MembersJson ms →
    costMembers ms ≤ ((stringifyMembers numbers.print ms).map fun t => t.length + 1).sum
  | [], _ => le_rfl
  | (key, value) :: ms, h => by
    obtain ⟨t, ht⟩ := stringify_isSome numbers h.1
    have hx := cost_le value h.1 t ht
    have hxs := costMembers_le ms h.2
    rw [costMembers, stringifyMembers, ht]
    simp only [List.map_cons, List.sum_cons, List.length_append, List.length_cons]
    omega

end

end Values

/-- `JSON.parse` -/
def parse (s : Text) : Option (Json N) :=
  (readValue numbers (s.length + 1) s).bind fun (value, rest) =>
    if skipSpace rest = [] then some value else none

/-- JSON round trips. -/
theorem parse_stringify {v : Json N} (hv : IsJson v) {t : Text}
    (ht : stringify numbers.print v = some t) : parse numbers t = some v := by
  have hends : EndsNumber [] := by
    rintro c ⟨⟩
  have hcost := cost_le v hv t ht
  obtain ⟨t', ht', hread⟩ := @readValue_stringify _ numbers v hv (t.length + 1) []
    (by omega) hends
  cases ht.symm.trans ht'
  rw [List.append_nil] at hread
  rw [parse, hread]
  rfl

/-- Values with the same text are the same. -/
theorem eq_of_stringify {v v' : Json N} (hv : IsJson v) (hv' : IsJson v')
    (h : stringify numbers.print v = stringify numbers.print v') : v = v' := by
  obtain ⟨t, ht⟩ := stringify_isSome numbers hv
  have hread := parse_stringify numbers hv ht
  have hread' := parse_stringify numbers hv' (h ▸ ht)
  exact Option.some.inj (hread.symm.trans hread')

section Rationals

def integerText : ℤ → Text
  | .ofNat n => Nat.toDigits 10 n
  | .negSucc n => '-' :: Nat.toDigits 10 (n + 1)

/-- An integer in decimal digits; any other rational as its numerator and its denominator. -/
def rationalText (q : ℚ) : Text :=
  integerText q.num ++ if q.den = 1 then [] else '.' :: Nat.toDigits 10 q.den

def readInteger : Text → ℤ
  | '-' :: digits => -(Nat.ofDigitChars 10 digits 0 : ℕ)
  | digits => (Nat.ofDigitChars 10 digits 0 : ℕ)

def readRational (s : Text) : ℚ :=
  let den := match s.dropWhile (· ≠ '.') with
    | [] => 1
    | _ :: digits => Nat.ofDigitChars 10 digits 0
  mkRat (readInteger (s.takeWhile (· ≠ '.'))) den

theorem readInteger_integerText (n : ℤ) : readInteger (integerText n) = n := by
  cases n with
  | ofNat n =>
    rw [integerText, readInteger]
    · rw [Nat.ofDigitChars_ten_toDigits]
      rfl
    · intro digits he
      have hdigit := Nat.isDigit_of_mem_toDigits (b := 10) (n := n) (c := '-') (by decide)
        (by decide) (he ▸ List.mem_cons_self)
      cases hdigit
  | negSucc n =>
    rw [integerText, readInteger, Nat.ofDigitChars_ten_toDigits]
    rfl

theorem integerText_chars (n : ℤ) : ∀ c ∈ integerText n, c = '-' ∨ c.isDigit = true := by
  intro c hc
  cases n with
  | ofNat n => exact .inr (Nat.isDigit_of_mem_toDigits (by decide) (by decide) hc)
  | negSucc n =>
    rcases List.mem_cons.mp hc with rfl | hc
    · exact .inl rfl
    · exact .inr (Nat.isDigit_of_mem_toDigits (by decide) (by decide) hc)

theorem integerText_first (n : ℤ) : ∃ c rest, integerText n = c :: rest := by
  cases n with
  | ofNat n => exact List.exists_cons_of_ne_nil Nat.toDigits_ne_nil
  | negSucc n => exact ⟨'-', _, rfl⟩

theorem readRational_rationalText (q : ℚ) : readRational (rationalText q) = q := by
  have hpoint : ∀ c ∈ integerText q.num, decide (c ≠ '.') = true := by
    intro c hc
    rcases integerText_chars q.num c hc with rfl | hdigit
    · rfl
    · refine decide_eq_true ?_
      rintro rfl
      cases hdigit
  by_cases hden : q.den = 1
  · rw [readRational, rationalText, if_pos hden, List.append_nil,
      List.takeWhile_eq_self_iff.mpr hpoint, List.dropWhile_eq_nil_iff.mpr hpoint,
      readInteger_integerText, ← hden, Rat.mkRat_self]
  · rw [readRational, rationalText, if_neg hden, List.takeWhile_append_of_pos hpoint,
      List.dropWhile_append_of_pos hpoint]
    simp only [List.takeWhile_cons, List.dropWhile_cons, ne_eq, not_true_eq_false, decide_false,
      Bool.false_eq_true, if_false, List.append_nil, readInteger_integerText,
      Nat.ofDigitChars_ten_toDigits, Rat.mkRat_self]

def rationals : NumberText ℚ where
  print := rationalText
  read s := some (readRational s)
  read_print q := congrArg some (readRational_rationalText q)
  first q := by
    obtain ⟨c, rest, h⟩ := integerText_first q.num
    have hc := integerText_chars q.num c (h ▸ List.mem_cons_self)
    exact ⟨c, _, by rw [rationalText, h, List.cons_append], hc⟩
  chars q c hc := by
    rcases List.mem_append.mp hc with hc | hc
    · rcases integerText_chars q.num c hc with rfl | hdigit
      · rfl
      · simp [isNumberChar, hdigit]
    · split_ifs at hc with hden
      · cases hc
      · rcases List.mem_cons.mp hc with rfl | hc
        · rfl
        · have hdigit := Nat.isDigit_of_mem_toDigits (by decide) (by decide) hc
          simp [isNumberChar, hdigit]

end Rationals

end Json
end AppBuilder.Encoding
