import AppBuilder.Encoding.JsonParse

/-! `JSON.parse` reads back what `JSON.stringify(value, null, 2)` writes. -/
namespace AppBuilder.Encoding.Json

variable {N : Type} {numbers : NumberText N}

section Spaces

/-- The start of a line. -/
def newLine (indent : ℕ) : Text := '\n' :: List.replicate indent ' '

theorem isSpace_of_mem_newLine {indent : ℕ} {c : Char} (h : c ∈ newLine indent) :
    isSpace c = true := by
  rcases List.mem_cons.mp h with rfl | hc
  · decide
  · rw [List.eq_of_mem_replicate hc]
    decide

theorem skipSpace_append {spaces : Text} (h : ∀ c ∈ spaces, isSpace c = true) (s : Text) :
    skipSpace (spaces ++ s) = skipSpace s :=
  List.dropWhile_append_of_pos h

theorem skipSpace_newLine (indent : ℕ) (s : Text) :
    skipSpace (newLine indent ++ s) = skipSpace s :=
  skipSpace_append (fun _ => isSpace_of_mem_newLine) s

theorem readValue_append {spaces : Text} (h : ∀ c ∈ spaces, isSpace c = true) (fuel : ℕ) (s : Text) :
    readValue numbers fuel (spaces ++ s) = readValue numbers fuel s := by
  cases fuel with
  | zero => rw [readValue, readValue]
  | succ fuel => rw [readValue, readValue, skipSpace_append h]

theorem readElements_newLine (fuel indent : ℕ) (s : Text) :
    readElements numbers fuel (newLine indent ++ s) = readElements numbers fuel s := by
  cases fuel with
  | zero => rw [readElements, readElements]
  | succ fuel =>
    rw [readElements, readElements, readValue_append fun _ => isSpace_of_mem_newLine]

theorem readMembers_newLine (fuel indent : ℕ) (members : List (Text × Json N)) (s : Text) :
    readMembers numbers fuel members (newLine indent ++ s) = readMembers numbers fuel members s := by
  cases fuel with
  | zero => rw [readMembers, readMembers]
  | succ fuel => rw [readMembers, readMembers, skipSpace_newLine]

theorem endsNumber_newLine (indent : ℕ) (rest : Text) : EndsNumber (newLine indent ++ rest) := by
  rintro c ⟨⟩
  decide

end Spaces

section Lines

/-- The parts on lines of their own. -/
def onLines (indent : ℕ) (parts : List Text) : List Text := parts.map (newLine indent ++ ·)

theorem block_cons (opening closing : Char) (indent : ℕ) (part : Text) (parts : List Text) :
    block opening closing indent (part :: parts) =
      opening :: (commas (onLines (indent + 2) (part :: parts)) ++ (newLine indent ++ [closing])) := by
  simp [block, onLines, newLine]

theorem onLines_ne_nil {indent : ℕ} {parts : List Text} (h : parts ≠ []) :
    onLines indent parts ≠ [] := mt List.map_eq_nil_iff.mp h

theorem commas_onLines_cons (indent : ℕ) (part : Text) {parts : List Text} (h : parts ≠ []) :
    commas (onLines indent (part :: parts)) =
      newLine indent ++ (part ++ ',' :: commas (onLines indent parts)) := by
  have hcons := commas_cons (newLine indent ++ part) (@onLines_ne_nil indent _ h)
  rw [List.append_assoc] at hcons
  exact hcons

theorem commas_onLines_singleton (indent : ℕ) (part : Text) :
    commas (onLines indent [part]) = newLine indent ++ part := rfl

variable (numbers) in
/-- The text of a value does not start like the end of an array. -/
theorem pretty_starts {v : Json N} (hv : IsJson v) (indent : ℕ) : ∃ c rest,
    pretty numbers.print indent v = some (c :: rest) ∧ isSpace c = false ∧ c ≠ ']' := by
  cases v with
  | undefined => cases hv
  | null => exact ⟨_, _, rfl, by decide, by decide⟩
  | bool b => cases b <;> exact ⟨_, _, rfl, by decide, by decide⟩
  | number n => exact @stringify_starts _ numbers (.number n) hv
  | string s => exact ⟨_, _, rfl, by decide, by decide⟩
  | array elements =>
    cases elements with
    | nil => exact ⟨_, _, rfl, by decide, by decide⟩
    | cons x xs => exact ⟨_, _, congrArg some (block_cons _ _ _ _ _), by decide, by decide⟩
  | object members =>
    refine ⟨'{', (block '{' '}' indent (prettyMembers numbers.print (indent + 2) members)).tail,
      ?_, by decide, by decide⟩
    rw [pretty]
    cases prettyMembers numbers.print (indent + 2) members with
    | nil => rfl
    | cons => rfl

variable (numbers) in
theorem pretty_isSome {v : Json N} (hv : IsJson v) (indent : ℕ) :
    ∃ t, pretty numbers.print indent v = some t := by
  obtain ⟨c, rest, h, -⟩ := pretty_starts numbers hv indent
  exact ⟨_, h⟩

end Lines

section Values

theorem readValue_newLine {c : Char} (hc : c = '[' ∨ c = '{') (fuel indent : ℕ) (s : Text) :
    readValue numbers (fuel + 1) (c :: (newLine indent ++ s)) =
      readValue numbers (fuel + 1) (c :: s) := by
  rcases hc with rfl | rfl
  · rw [readValue, readValue, skipSpace_cons _ (by decide), skipSpace_cons _ (by decide)]
    simp only [skipSpace_newLine]
  · rw [readValue, readValue, skipSpace_cons _ (by decide), skipSpace_cons _ (by decide)]
    simp only [skipSpace_newLine]

theorem readMember_space (fuel : ℕ) (members : List (Text × Json N)) (key s : Text) :
    @readMember _ numbers fuel members key (' ' :: s) =
      @readMember _ numbers fuel members key s := by
  have hread := @readValue_append _ numbers [' '] (List.forall_mem_singleton.mpr rfl) fuel s
  rw [List.singleton_append] at hread
  rw [readMember, readMember, hread]

mutual

/-- What is written of a value is read back, up to where it ends. -/
theorem readValue_pretty : (v : Json N) → IsJson v → ∀ (indent fuel : ℕ) (rest : Text),
    cost v ≤ fuel → EndsNumber rest → ∃ t, pretty numbers.print indent v = some t ∧
      readValue numbers fuel (t ++ rest) = some (v, rest)
  | .undefined, hv => hv.elim
  | .null, _ => fun _ fuel rest hfuel _ => by
    obtain ⟨fuel, rfl, -⟩ := @exists_fuel 0 _ hfuel
    refine ⟨_, rfl, ?_⟩
    rw [readValue]
    rfl
  | .bool b, _ => fun _ fuel rest hfuel _ => by
    obtain ⟨fuel, rfl, -⟩ := @exists_fuel 0 _ hfuel
    refine ⟨_, rfl, ?_⟩
    rw [readValue]
    cases b <;> rfl
  | .number n, _ => fun _ fuel rest hfuel hrest => by
    obtain ⟨fuel, rfl, -⟩ := @exists_fuel 0 _ hfuel
    exact ⟨_, rfl, readValue_number n hrest fuel⟩
  | .string s, _ => fun _ fuel rest hfuel _ => by
    obtain ⟨fuel, rfl, -⟩ := @exists_fuel 0 _ hfuel
    exact ⟨_, rfl, readValue_string s rest fuel⟩
  | .array elements, hv => fun indent fuel rest hfuel _ => by
    obtain ⟨fuel, rfl, hless⟩ := @exists_fuel (costElements elements) _ hfuel
    refine ⟨_, rfl, ?_⟩
    cases elements with
    | nil =>
      rw [readValue]
      rfl
    | cons x xs =>
      have hread := readElements_pretty (x :: xs) hv (List.cons_ne_nil _ _) indent fuel rest hless
      obtain ⟨c, tail, hstarts, hspace, hc⟩ := pretty_starts numbers hv.1 (indent + 2)
      obtain ⟨tail', htail⟩ : ∃ tail',
          commas (onLines (indent + 2) (prettyElements numbers.print (indent + 2) (x :: xs))) =
            newLine (indent + 2) ++ c :: tail' := by
        rw [prettyElements, hstarts]
        cases hrest : prettyElements numbers.print (indent + 2) xs with
        | nil => exact ⟨_, rfl⟩
        | cons u us =>
          rw [commas_onLines_cons _ _ (List.cons_ne_nil u us)]
          exact ⟨_, rfl⟩
      have hblock := block_cons '[' ']' indent
        ((pretty numbers.print (indent + 2) x).getD (text "null"))
        (prettyElements numbers.print (indent + 2) xs)
      rw [← prettyElements] at hblock
      rw [hblock, List.cons_append, List.append_assoc, List.append_assoc]
      rw [htail, List.append_assoc] at hread ⊢
      rw [readElements_newLine] at hread
      rw [readValue_newLine (.inl rfl)]
      exact readValue_array rfl hspace hc hread
  | .object members, hv => fun indent fuel rest hfuel _ => by
    obtain ⟨fuel, rfl, hless⟩ := @exists_fuel (costMembers members) _ hfuel
    refine ⟨_, rfl, ?_⟩
    cases members with
    | nil =>
      rw [readValue]
      rfl
    | cons m ms =>
      have hread := readMembers_pretty (m :: ms) hv.2 (List.cons_ne_nil _ _) indent fuel [] rest
        hless
      rw [foldl_defineMember (by simpa using hv.1)] at hread
      obtain ⟨t, ht⟩ := pretty_isSome numbers hv.2.1 (indent + 2)
      have hlines : prettyMembers numbers.print (indent + 2) (m :: ms) =
          (quote m.1 ++ ':' :: ' ' :: t) :: prettyMembers numbers.print (indent + 2) ms := by
        rw [prettyMembers, ht]
      obtain ⟨tail, htail⟩ : ∃ tail,
          commas (onLines (indent + 2) (prettyMembers numbers.print (indent + 2) (m :: ms))) =
            newLine (indent + 2) ++ '"' :: tail := by
        rw [hlines]
        cases prettyMembers numbers.print (indent + 2) ms with
        | nil => exact ⟨_, rfl⟩
        | cons u us =>
          rw [commas_onLines_cons _ _ (List.cons_ne_nil u us)]
          exact ⟨_, rfl⟩
      have hblock := block_cons '{' '}' indent (quote m.1 ++ ':' :: ' ' :: t)
        (prettyMembers numbers.print (indent + 2) ms)
      rw [← hlines] at hblock
      rw [hblock, List.cons_append, List.append_assoc, List.append_assoc]
      rw [htail, List.append_assoc] at hread ⊢
      rw [readMembers_newLine] at hread
      rw [readValue_newLine (.inr rfl)]
      exact readValue_object rfl hread

theorem readElements_pretty : (xs : List (Json N)) → AllJson xs → xs ≠ [] →
    ∀ (indent fuel : ℕ) (rest : Text), costElements xs ≤ fuel →
      readElements numbers fuel
        (commas (onLines (indent + 2) (prettyElements numbers.print (indent + 2) xs)) ++
          (newLine indent ++ ([']'] ++ rest))) = some (xs, rest)
  | [], _, hne => absurd rfl hne
  | x :: xs, h, _ => fun indent fuel rest hfuel => by
    have hcost : 1 + (cost x + costElements xs) ≤ fuel := by
      rw [costElements] at hfuel
      omega
    obtain ⟨fuel, rfl, hless⟩ := exists_fuel hcost
    cases xs with
    | nil =>
      obtain ⟨t, ht, hread⟩ := readValue_pretty x h.1 (indent + 2) fuel
        (newLine indent ++ ([']'] ++ rest)) (by omega) (endsNumber_newLine indent _)
      simp only [prettyElements, ht, Option.getD_some]
      rw [commas_onLines_singleton, List.append_assoc, readElements_newLine, readElements, hread]
      simp only [Option.bind_some, skipSpace_newLine]
      rfl
    | cons y ys =>
      have hrest := readElements_pretty (y :: ys) h.2 (List.cons_ne_nil _ _) indent fuel rest
        (by omega)
      obtain ⟨t, ht, hread⟩ := readValue_pretty x h.1 (indent + 2) fuel
        (',' :: (commas (onLines (indent + 2)
          (prettyElements numbers.print (indent + 2) (y :: ys))) ++
            (newLine indent ++ ([']'] ++ rest)))) (by omega) (endsNumber_comma _)
      have hne : prettyElements numbers.print (indent + 2) (y :: ys) ≠ [] := by
        rw [prettyElements]
        exact List.cons_ne_nil _ _
      rw [prettyElements, ht, Option.getD_some, commas_onLines_cons _ _ hne, List.append_assoc,
        readElements_newLine, List.append_assoc, List.cons_append, readElements, hread]
      simp only [Option.bind_some]
      rw [skipSpace_cons _ (by decide)]
      simp only [hrest]
      rfl

theorem readMembers_pretty : (ms : List (Text × Json N)) → MembersJson ms → ms ≠ [] →
    ∀ (indent fuel : ℕ) (members : List (Text × Json N)) (rest : Text), costMembers ms ≤ fuel →
      readMembers numbers fuel members
        (commas (onLines (indent + 2) (prettyMembers numbers.print (indent + 2) ms)) ++
          (newLine indent ++ (['}'] ++ rest))) =
        some (ms.foldl (fun members entry => defineMember members entry.1 entry.2) members, rest)
  | [], _, hne => absurd rfl hne
  | (key, value) :: ms, h, _ => fun indent fuel members rest hfuel => by
    have hcost : 1 + (cost value + costMembers ms) ≤ fuel := by
      rw [costMembers] at hfuel
      omega
    obtain ⟨fuel, rfl, hless⟩ := exists_fuel hcost
    cases ms with
    | nil =>
      obtain ⟨t, ht, hread⟩ := readValue_pretty value h.1 (indent + 2) fuel
        (newLine indent ++ (['}'] ++ rest)) (by omega) (endsNumber_newLine indent _)
      simp only [prettyMembers, ht]
      rw [commas_onLines_singleton, List.append_assoc, readMembers_newLine, List.append_assoc,
        List.cons_append, List.cons_append, readMembers_head, readMember_space, readMember, hread]
      simp only [Option.bind_some, skipSpace_newLine]
      rfl
    | cons m ms =>
      have hrest := readMembers_pretty (m :: ms) h.2 (List.cons_ne_nil _ _) indent fuel
        (defineMember members key value) rest (by omega)
      obtain ⟨t, ht, hread⟩ := readValue_pretty value h.1 (indent + 2) fuel
        (',' :: (commas (onLines (indent + 2)
          (prettyMembers numbers.print (indent + 2) (m :: ms))) ++
            (newLine indent ++ (['}'] ++ rest)))) (by omega) (endsNumber_comma _)
      obtain ⟨t', ht'⟩ := pretty_isSome numbers h.2.1 (indent + 2)
      have hne : prettyMembers numbers.print (indent + 2) (m :: ms) ≠ [] := by
        rw [prettyMembers, ht']
        exact List.cons_ne_nil _ _
      have hlines : prettyMembers numbers.print (indent + 2) ((key, value) :: m :: ms) =
          (quote key ++ ':' :: ' ' :: t) :: prettyMembers numbers.print (indent + 2) (m :: ms) := by
        rw [prettyMembers, ht]
      rw [hlines, commas_onLines_cons _ _ hne, List.append_assoc, readMembers_newLine,
        List.append_assoc, List.append_assoc, List.cons_append, List.cons_append, List.cons_append,
        readMembers_head, readMember_space, readMember, hread]
      simp only [Option.bind_some]
      rw [skipSpace_cons _ (by decide)]
      exact hrest

end

theorem sum_onLines (indent : ℕ) (parts : List Text) :
    (parts.map fun t => t.length + 1).sum ≤ ((onLines indent parts).map fun t => t.length + 1).sum := by
  induction parts with
  | nil => exact Nat.le_refl _
  | cons part parts ih =>
    have hline : part.length ≤ (newLine indent ++ part).length := by
      rw [List.length_append]
      omega
    simp only [onLines, List.map_cons, List.sum_cons] at ih ⊢
    omega

/-- The parts fit between the brackets. -/
theorem sum_le_block (opening closing : Char) (indent : ℕ) (parts : List Text) :
    1 + (parts.map fun t => t.length + 1).sum ≤ (block opening closing indent parts).length := by
  cases parts with
  | nil => simp [block]
  | cons part parts =>
    have hsum := sum_onLines (indent + 2) (part :: parts)
    have hlength := length_commas _
      (@onLines_ne_nil (indent + 2) _ (List.cons_ne_nil part parts))
    rw [block_cons]
    simp only [List.length_cons, List.length_append, List.length_nil] at hsum hlength ⊢
    omega

mutual

theorem cost_le_pretty : (v : Json N) → IsJson v → ∀ indent t,
    pretty numbers.print indent v = some t → cost v ≤ t.length
  | .undefined, hv => hv.elim
  | .null, _ => by
    rintro indent t ⟨⟩
    simp [cost, text]
  | .bool b, _ => by
    rintro indent t ⟨⟩
    cases b <;> simp [cost, text]
  | .number n, hv => fun _ t ht => @cost_le _ numbers (.number n) hv t ht
  | .string s, _ => by
    rintro indent t ⟨⟩
    exact Nat.succ_le_succ (Nat.zero_le _)
  | .array elements, hv => by
    rintro indent t ⟨⟩
    have hsum := costElements_le_pretty elements hv (indent + 2)
    have hblock := sum_le_block '[' ']' indent
      (prettyElements numbers.print (indent + 2) elements)
    rw [cost]
    omega
  | .object members, hv => by
    rintro indent t ⟨⟩
    have hsum := costMembers_le_pretty members hv.2 (indent + 2)
    have hblock := sum_le_block '{' '}' indent (prettyMembers numbers.print (indent + 2) members)
    rw [cost]
    omega

theorem costElements_le_pretty : (xs : List (Json N)) → AllJson xs → ∀ indent,
    costElements xs ≤ ((prettyElements numbers.print indent xs).map fun t => t.length + 1).sum
  | [], _ => fun _ => Nat.le_refl _
  | x :: xs, h => fun indent => by
    obtain ⟨t, ht⟩ := pretty_isSome numbers h.1 indent
    have hx := cost_le_pretty x h.1 indent t ht
    have hxs := costElements_le_pretty xs h.2 indent
    rw [costElements, prettyElements, ht, Option.getD_some, List.map_cons, List.sum_cons]
    omega

theorem costMembers_le_pretty : (ms : List (Text × Json N)) → MembersJson ms → ∀ indent,
    costMembers ms ≤ ((prettyMembers numbers.print indent ms).map fun t => t.length + 1).sum
  | [], _ => fun _ => Nat.le_refl _
  | (key, value) :: ms, h => fun indent => by
    obtain ⟨t, ht⟩ := pretty_isSome numbers h.1 indent
    have hx := cost_le_pretty value h.1 indent t ht
    have hxs := costMembers_le_pretty ms h.2 indent
    rw [costMembers, prettyMembers, ht]
    simp only [List.map_cons, List.sum_cons, List.length_append, List.length_cons]
    omega

end

end Values

/-- JSON on several lines round trips, with space behind it. -/
theorem parse_pretty {v : Json N} (hv : IsJson v) {indent : ℕ} {t : Text}
    (ht : pretty numbers.print indent v = some t) {spaces : Text}
    (hspaces : ∀ c ∈ spaces, isSpace c = true) : parse numbers (t ++ spaces) = some v := by
  have hends : EndsNumber spaces := by
    intro c hc
    have hspace := hspaces c (List.mem_of_mem_head? hc)
    simp only [isSpace, Bool.or_eq_true, beq_iff_eq] at hspace
    rcases hspace with ((rfl | rfl) | rfl) | rfl <;> decide
  have hcost := cost_le_pretty v hv indent t ht
  obtain ⟨t', ht', hread⟩ := @readValue_pretty _ numbers v hv indent ((t ++ spaces).length + 1)
    spaces (by rw [List.length_append]; omega) hends
  cases ht.symm.trans ht'
  have hrest : skipSpace spaces = [] := List.dropWhile_eq_nil_iff.mpr hspaces
  rw [parse, hread]
  exact if_pos hrest

end AppBuilder.Encoding.Json
