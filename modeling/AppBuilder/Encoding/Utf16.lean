import AppBuilder.Encoding.Utf8
import Mathlib.Data.List.Lex

/-! Texts as sequences of UTF-16 code units, the way JavaScript counts, cuts and compares them. -/
namespace AppBuilder.Encoding.Utf16

def units (c : Char) : List ℕ :=
  if c.toNat < 0x10000 then [c.toNat]
  else [0xD800 + (c.toNat - 0x10000) / 0x400, 0xDC00 + (c.toNat - 0x10000) % 0x400]

def encode (s : Text) : List ℕ := s.flatMap units

/-- `s.length` -/
def length (s : Text) : ℕ := (encode s).length

/-- `s.slice(0, n)`, where half of a surrogate pair is stored as the replacement character. -/
def slice : ℕ → Text → Text
  | 0, _ => []
  | _, [] => []
  | 1, c :: _ => if c.toNat < 0x10000 then [c] else [Utf8.replacement]
  | n + 2, c :: cs => if c.toNat < 0x10000 then c :: slice (n + 1) cs else c :: slice n cs

/-- `a < b` -/
def lt (a b : Text) : Bool := decide (encode a < encode b)

theorem toNat_bounds (c : Char) : c.toNat < 0xD800 ∨ (0xDFFF < c.toNat ∧ c.toNat < 0x110000) :=
  c.valid

theorem units_ne_nil (c : Char) : units c ≠ [] := by
  unfold units
  split_ifs <;> simp

/-- The first character can be read off the units. -/
theorem units_append {c d : Char} {s t : List ℕ} (h : units c ++ s = units d ++ t) :
    c = d ∧ s = t := by
  have hc := toNat_bounds c
  have hd := toNat_bounds d
  have hext : c.toNat = d.toNat → c = d := fun he => Char.toNat_inj.mp he
  unfold units at h
  split_ifs at h with hcs hds hds
  · obtain ⟨hunit, hrest⟩ := List.cons.inj h
    exact ⟨hext hunit, hrest⟩
  · have hunit := (List.cons.inj h).1
    omega
  · have hunit := (List.cons.inj h).1
    omega
  · obtain ⟨hhigh, htail⟩ := List.cons.inj h
    obtain ⟨hlow, hrest⟩ := List.cons.inj htail
    refine ⟨hext ?_, hrest⟩
    omega

theorem encode_injective : Function.Injective encode := by
  intro s
  induction s with
  | nil =>
    rintro (_ | ⟨d, t⟩) h
    · rfl
    · exact absurd (List.append_eq_nil_iff.mp h.symm).1 (units_ne_nil d)
  | cons c s ih =>
    rintro (_ | ⟨d, t⟩) h
    · exact absurd (List.append_eq_nil_iff.mp h).1 (units_ne_nil c)
    · obtain ⟨rfl, hrest⟩ := units_append h
      rw [ih hrest]

end AppBuilder.Encoding.Utf16
