import AppBuilder.Encoding.JsonParse
import AppBuilder.Encoding.LineFeed

/-! The text of a JSON value is one line. -/
namespace AppBuilder.Encoding

theorem isNewline_hexDigit (n : ℕ) : isNewline (hexDigit n) = false := by
  have hdigits : IsLine (text "0123456789abcdef") := isLine_of_all rfl
  unfold hexDigit
  rw [List.getD_eq_getElem?_getD]
  cases hc : (text "0123456789abcdef")[n]? with
  | none => rfl
  | some c => exact hdigits c (List.mem_of_getElem? hc)

theorem isLine_quoteChar (c : Char) : IsLine (quoteChar c) := by
  unfold quoteChar
  split_ifs with _ _ _ _ hfeed _ hreturn hcontrol
  all_goals intro d hd
  all_goals simp only [List.mem_cons, List.not_mem_nil, or_false] at hd
  · rcases hd with rfl | rfl <;> rfl
  · rcases hd with rfl | rfl <;> rfl
  · rcases hd with rfl | rfl <;> rfl
  · rcases hd with rfl | rfl <;> rfl
  · rcases hd with rfl | rfl <;> rfl
  · rcases hd with rfl | rfl <;> rfl
  · rcases hd with rfl | rfl <;> rfl
  · rcases hd with rfl | rfl | rfl | rfl | rfl | rfl
    · rfl
    · rfl
    · rfl
    · rfl
    · exact isNewline_hexDigit _
    · exact isNewline_hexDigit _
  · subst hd
    rw [isNewline, Bool.or_eq_false_iff, beq_eq_false_iff_ne, beq_eq_false_iff_ne]
    exact ⟨hreturn, hfeed⟩

theorem isLine_quote (s : Text) : IsLine (quote s) := by
  have hquote : IsLine ['"'] := by
    intro c hc
    cases List.mem_singleton.mp hc
    rfl
  have hbody : IsLine (s.flatMap quoteChar) := by
    intro c hc
    obtain ⟨d, -, hd⟩ := List.mem_flatMap.mp hc
    exact isLine_quoteChar d c hd
  exact isLine_append (isLine_append hquote hbody) hquote

theorem isLine_commas {ts : List Text} (h : ∀ t ∈ ts, IsLine t) : IsLine (commas ts) := by
  induction ts with
  | nil => exact fun c hc => nomatch hc
  | cons t ts ih =>
    have hrest := ih fun u hu => h u (List.mem_cons_of_mem _ hu)
    by_cases hts : ts = []
    · subst hts
      exact h t List.mem_cons_self
    · have hcomma : IsLine (',' :: commas ts) := by
        intro c hc
        rcases List.mem_cons.mp hc with rfl | hc
        · rfl
        · exact hrest c hc
      rw [commas_cons t hts]
      exact isLine_append (h t List.mem_cons_self) hcomma

namespace Json

variable {N : Type} {print : N → Text}

theorem isLine_enclosed {opening closing : Char} {s : Text} (ho : isNewline opening = false)
    (hc : isNewline closing = false) (hs : IsLine s) : IsLine (opening :: s ++ [closing]) := by
  intro c hmem
  rcases List.mem_append.mp hmem with hmem | hmem
  · rcases List.mem_cons.mp hmem with rfl | hmem
    · exact ho
    · exact hs c hmem
  · cases List.mem_singleton.mp hmem
    exact hc

mutual

theorem isLine_stringify (hprint : ∀ n, IsLine (print n)) : (v : Json N) → ∀ t,
    stringify print v = some t → IsLine t
  | .undefined, t, ht => nomatch ht
  | .null, t, ht => by
    cases ht
    exact isLine_of_all rfl
  | .bool b, t, ht => by
    cases ht
    cases b <;> exact isLine_of_all rfl
  | .number n, t, ht => by
    cases ht
    exact hprint n
  | .string s, t, ht => by
    cases ht
    exact isLine_quote s
  | .array elements, t, ht => by
    cases ht
    exact isLine_enclosed rfl rfl (isLine_commas (isLine_stringifyElements hprint elements))
  | .object members, t, ht => by
    cases ht
    exact isLine_enclosed rfl rfl (isLine_commas (isLine_stringifyMembers hprint members))

theorem isLine_stringifyElements (hprint : ∀ n, IsLine (print n)) : (xs : List (Json N)) →
    ∀ t ∈ stringifyElements print xs, IsLine t
  | [], t, ht => nomatch ht
  | x :: xs, t, ht => by
    rw [stringifyElements] at ht
    rcases List.mem_cons.mp ht with rfl | ht
    · cases hx : stringify print x with
      | none => exact isLine_of_all rfl
      | some u => exact isLine_stringify hprint x u hx
    · exact isLine_stringifyElements hprint xs t ht

theorem isLine_stringifyMembers (hprint : ∀ n, IsLine (print n)) : (ms : List (Text × Json N)) →
    ∀ t ∈ stringifyMembers print ms, IsLine t
  | [], t, ht => nomatch ht
  | (key, x) :: ms, t, ht => by
    rw [stringifyMembers] at ht
    cases hx : stringify print x with
    | none =>
      rw [hx] at ht
      exact isLine_stringifyMembers hprint ms t ht
    | some u =>
      rw [hx] at ht
      rcases List.mem_cons.mp ht with rfl | ht
      · have hvalue : IsLine (':' :: u) := by
          intro c hc
          rcases List.mem_cons.mp hc with rfl | hc
          · rfl
          · exact isLine_stringify hprint x u hx c hc
        exact isLine_append (isLine_quote key) hvalue
      · exact isLine_stringifyMembers hprint ms t ht

end

theorem isLine_print (numbers : NumberText N) (n : N) : IsLine (numbers.print n) := by
  intro c hc
  have hchar := numbers.chars n c hc
  rw [isNewline, Bool.or_eq_false_iff, beq_eq_false_iff_ne, beq_eq_false_iff_ne]
  constructor
  · rintro rfl
    cases hchar
  · rintro rfl
    cases hchar

end Json
end AppBuilder.Encoding
