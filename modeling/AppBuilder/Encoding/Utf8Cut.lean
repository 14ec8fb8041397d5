import AppBuilder.Encoding.Utf8

/-! The start of a text that is cut in its UTF-8 and decoded again. -/
namespace AppBuilder.Encoding.Utf8

section Complete

variable {d : Decoder}

/-- A step that leaves nothing open has given a character. -/
theorem step_complete {byte : ℕ} (h : (d.step byte).2.needed = 0) : (d.step byte).1 ≠ [] := by
  have hfirst : ∀ byte, (Decoder.first byte).2.needed = 0 → (Decoder.first byte).1 ≠ [] := by
    intro byte h
    unfold Decoder.first at h ⊢
    split_ifs at h ⊢ <;> simp_all
  unfold Decoder.step at h ⊢
  split_ifs at h ⊢ with hneeded hinterrupted hlast
  · exact hfirst byte h
  · exact List.cons_ne_nil _ _
  · exact List.cons_ne_nil _ _
  · dsimp only at h
    omega

theorem run_complete {bytes : List ℕ} (hne : bytes ≠ []) (h : (d.run bytes).2.needed = 0) :
    (d.run bytes).1 ≠ [] := by
  induction bytes generalizing d with
  | nil => exact absurd rfl hne
  | cons byte bytes ih =>
    rw [Decoder.run] at h ⊢
    dsimp only at h ⊢
    by_cases hbytes : bytes = []
    · subst hbytes
      exact fun hnil => step_complete h (List.append_eq_nil_iff.mp hnil).1
    · exact fun hnil => ih hbytes h (List.append_eq_nil_iff.mp hnil).2

/-- Inside a character nothing has been read yet, and more is needed. -/
theorem run_inside {c : Char} {first second : List ℕ} (h : encodeChar c = first ++ second)
    (hfirst : first ≠ []) (hsecond : second ≠ []) :
    (Decoder.initial.run first).1 = [] ∧ (Decoder.initial.run first).2.needed ≠ 0 := by
  have hwhole := run_encodeChar c
  rw [h, Decoder.run_append, Prod.mk.injEq] at hwhole
  obtain ⟨hchars, hend⟩ := hwhole
  have hmore : ((Decoder.initial.run first).2.run second).1 ≠ [] := by
    refine run_complete hsecond ?_
    rw [hend]
    rfl
  have hnone : (Decoder.initial.run first).1 = [] := by
    rcases List.append_eq_singleton_iff.mp hchars with ⟨hnone, -⟩ | ⟨-, hrest⟩
    · exact hnone
    · exact absurd hrest hmore
  exact ⟨hnone, fun hneeded => run_complete hfirst hneeded hnone⟩

end Complete

section Cut

variable {s kept rest : Text} {c : Char} {limit : ℕ}

theorem bytes_append (s t : Text) : encode (s ++ t) = encode s ++ encode t := List.flatMap_append

theorem encode_cons (c : Char) (s : Text) : encode (c :: s) = encodeChar c ++ encode s :=
  List.flatMap_cons

/-- The character in whose bytes, or before whose bytes, a limit falls. -/
theorem exists_cut (h : limit < (encode s).length) : ∃ kept c rest, s = kept ++ c :: rest ∧
    (encode kept).length ≤ limit ∧ limit < (encode kept).length + (encodeChar c).length := by
  induction s generalizing limit with
  | nil => exact absurd h (Nat.not_lt_zero _)
  | cons c s ih =>
    by_cases hfirst : limit < (encodeChar c).length
    · refine ⟨[], c, s, rfl, Nat.zero_le _, ?_⟩
      rw [encode, List.flatMap_nil, List.length_nil]
      omega
    · have hrest : limit - (encodeChar c).length < (encode s).length := by
        rw [encode_cons, List.length_append] at h
        omega
      obtain ⟨kept, c', rest, rfl, hle, hlt⟩ := ih hrest
      refine ⟨c :: kept, c', rest, rfl, ?_, ?_⟩
      · rw [encode_cons, List.length_append]
        omega
      · rw [encode_cons, List.length_append]
        omega

/-- A cut between two characters. -/
theorem decode_take_boundary (h : (encode kept).length = limit) :
    decode ((encode (kept ++ rest)).take limit) = kept := by
  rw [bytes_append, ← h, List.take_left, decode_encode]

/-- A cut inside a character leaves a replacement character. -/
theorem decode_take_inside (hmore : (encode kept).length < limit)
    (hless : limit < (encode kept).length + (encodeChar c).length) :
    decode ((encode (kept ++ c :: rest)).take limit) = kept ++ [replacement] := by
  have hsplit := (List.take_append_drop (limit - (encode kept).length) (encodeChar c)).symm
  have hfirst : (encodeChar c).take (limit - (encode kept).length) ≠ [] := by
    refine List.ne_nil_of_length_pos ?_
    rw [List.length_take]
    omega
  have hsecond : (encodeChar c).drop (limit - (encode kept).length) ≠ [] := by
    refine List.ne_nil_of_length_pos ?_
    rw [List.length_drop]
    omega
  obtain ⟨hnone, hneeded⟩ := run_inside hsplit hfirst hsecond
  have htake : (encode (kept ++ c :: rest)).take limit =
      encode kept ++ (encodeChar c).take (limit - (encode kept).length) := by
    rw [bytes_append, encode_cons, List.take_append, List.take_of_length_le (by omega),
      List.take_append_of_le_length (by omega)]
  rw [htake, decode, Decoder.run_append, run_encode]
  dsimp only
  rw [hnone, Decoder.flush, if_neg hneeded, List.append_nil]

theorem length_encodeChar_replacement : (encodeChar replacement).length = 3 := by decide

end Cut

end AppBuilder.Encoding.Utf8
