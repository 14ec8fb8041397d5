import Mathlib.Algebra.GroupWithZero.Nat
import Mathlib.Data.List.Perm.Basic
import Mathlib.Data.Nat.Notation

/-! JavaScript values that JSON can carry, and their text. `N` is the type of numbers. -/
namespace AppBuilder.Encoding

abbrev Text := List Char

/-- An object lists its own properties in order; a property may hold `undefined`. -/
inductive Json (N : Type) where
  | undefined
  | null
  | bool (b : Bool)
  | number (n : N)
  | string (s : Text)
  | array (elements : List (Json N))
  | object (members : List (Text × Json N))

def text (s : String) : Text := s.toList

/-- The digit of a number below 16. -/
def hexDigit (n : ℕ) : Char := (text "0123456789abcdef").getD n '0'

/-- One character of a JSON string literal. -/
def quoteChar (c : Char) : Text :=
  if c = '"' then ['\\', '"']
  else if c = '\\' then ['\\', '\\']
  else if c = Char.ofNat 8 then ['\\', 'b']
  else if c = Char.ofNat 9 then ['\\', 't']
  else if c = Char.ofNat 10 then ['\\', 'n']
  else if c = Char.ofNat 12 then ['\\', 'f']
  else if c = Char.ofNat 13 then ['\\', 'r']
  else if c.toNat < 32 then
    ['\\', 'u', '0', '0', hexDigit (c.toNat / 16), hexDigit (c.toNat % 16)]
  else [c]

def quote (s : Text) : Text := '"' :: s.flatMap quoteChar ++ ['"']

/-- `texts.join(',')`. -/
def commas : List Text → Text
  | [] => []
  | [t] => t
  | t :: ts => t ++ ',' :: commas ts

namespace Json

variable {N : Type} (number : N → Text)

mutual

/-- `JSON.stringify(value)`; `undefined` has no text. -/
def stringify : Json N → Option Text
  | .undefined => none
  | .null => some (text "null")
  | .bool b => some (text (if b then "true" else "false"))
  | .number n => some (number n)
  | .string s => some (quote s)
  | .array elements => some ('[' :: commas (stringifyElements elements) ++ [']'])
  | .object members => some ('{' :: commas (stringifyMembers members) ++ ['}'])

/-- An element without a text is written as `null`. -/
def stringifyElements : List (Json N) → List Text
  | [] => []
  | x :: xs => (stringify x).getD (text "null") :: stringifyElements xs

/-- A property without a text is left out. -/
def stringifyMembers : List (Text × Json N) → List Text
  | [] => []
  | (key, value) :: rest =>
    match stringify value with
    | none => stringifyMembers rest
    | some t => (quote key ++ ':' :: t) :: stringifyMembers rest

end

/-- The parts of an array or an object on lines of their own, indented by `indent + 2`. -/
def block (opening closing : Char) (indent : ℕ) : List Text → Text
  | [] => [opening, closing]
  | parts =>
    let lines := parts.map fun part => '\n' :: List.replicate (indent + 2) ' ' ++ part
    opening :: commas lines ++ '\n' :: List.replicate indent ' ' ++ [closing]

mutual

/-- `JSON.stringify(value, null, 2)`, inside `indent` spaces. -/
def pretty (indent : ℕ) : Json N → Option Text
  | .undefined => none
  | .null => some (text "null")
  | .bool b => some (text (if b then "true" else "false"))
  | .number n => some (number n)
  | .string s => some (quote s)
  | .array elements => some (block '[' ']' indent (prettyElements (indent + 2) elements))
  | .object members => some (block '{' '}' indent (prettyMembers (indent + 2) members))

def prettyElements (indent : ℕ) : List (Json N) → List Text
  | [] => []
  | x :: xs => (pretty indent x).getD (text "null") :: prettyElements indent xs

def prettyMembers (indent : ℕ) : List (Text × Json N) → List Text
  | [] => []
  | (key, value) :: rest =>
    match pretty indent value with
    | none => prettyMembers indent rest
    | some t => (quote key ++ ':' :: ' ' :: t) :: prettyMembers indent rest

end

end Json

section Commas

theorem commas_cons (t : Text) {ts : List Text} (h : ts ≠ []) :
    commas (t :: ts) = t ++ ',' :: commas ts := by
  cases ts with
  | nil => exact absurd rfl h
  | cons => rfl

theorem length_commas (ts : List Text) (h : ts ≠ []) :
    (commas ts).length + 1 = (ts.map fun t => t.length + 1).sum := by
  induction ts with
  | nil => exact absurd rfl h
  | cons t ts ih =>
    by_cases hts : ts = []
    · subst hts
      simp [commas]
    · have hrest := ih hts
      rw [commas_cons t hts]
      simp only [List.length_append, List.length_cons, List.map_cons, List.sum_cons]
      omega

/-- The order of the parts does not change the length. -/
theorem length_commas_perm {ts us : List Text} (h : ts.Perm us) :
    (commas ts).length = (commas us).length := by
  by_cases hts : ts = []
  · subst hts
    rw [h.nil_eq]
  · have hus : us ≠ [] := fun he => hts (List.Perm.eq_nil (he ▸ h))
    have hsum := (h.map fun t => t.length + 1).sum_nat
    have hl := length_commas ts hts
    have hr := length_commas us hus
    omega

/-- The texts on both sides of one part. -/
theorem commas_middle (ts us : List Text) (t : Text) :
    commas (ts ++ t :: us) =
      ts.flatMap (fun t => t ++ [',']) ++ (t ++ us.flatMap fun u => ',' :: u) := by
  induction ts with
  | cons s ts ih =>
    rw [List.cons_append, commas_cons s (by simp), ih]
    simp
  | nil =>
    induction us generalizing t with
    | nil => simp [commas]
    | cons u us ih =>
      rw [List.nil_append, commas_cons t (by simp), ← List.nil_append (u :: us), ih]
      simp

end Commas

namespace Json

variable {N : Type} {number : N → Text}

theorem stringifyMembers_append (as bs : List (Text × Json N)) :
    stringifyMembers number (as ++ bs) = stringifyMembers number as ++ stringifyMembers number bs := by
  induction as with
  | nil => rfl
  | cons a as ih =>
    obtain ⟨key, value⟩ := a
    rw [List.cons_append, stringifyMembers, stringifyMembers]
    split
    · exact ih
    · rw [ih, List.cons_append]

/-- Two objects that differ in one value have the same text exactly when the values do. -/
theorem stringify_object_eq_iff (as bs : List (Text × Json N)) (key : Text) {v v' : Json N}
    {t t' : Text} (hv : stringify number v = some t) (hv' : stringify number v' = some t') :
    stringify number (.object (as ++ (key, v) :: bs)) =
      stringify number (.object (as ++ (key, v') :: bs)) ↔ t = t' := by
  simp only [stringify, stringifyMembers_append, stringifyMembers, hv, hv', commas_middle,
    Option.some.injEq, List.cons_append, List.cons.injEq, true_and, List.append_assoc,
    List.append_cancel_left_eq, List.append_cancel_right_eq]

end Json
end AppBuilder.Encoding
