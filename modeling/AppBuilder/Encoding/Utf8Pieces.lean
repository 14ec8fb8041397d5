import AppBuilder.Encoding.Utf16
import Mathlib.Data.List.TakeWhile

/-! A stream of UTF-8 that is decoded piece by piece, against the stream that is decoded as one. -/
namespace AppBuilder.Encoding.Utf8

section Leading

variable {α : Type} [BEq α] [LawfulBEq α] {a : α} {xs ys : List α} {m : ℕ}

/-- How often `a` stands at the start. -/
def leading (a : α) (xs : List α) : ℕ := (xs.takeWhile (· == a)).length

theorem leading_cons_self : leading a (a :: xs) = leading a xs + 1 := by
  simp [leading]

theorem leading_cons_ne {b : α} (h : b ≠ a) : leading a (b :: xs) = 0 := by
  simp [leading, h]

/-- What stands after the leading ones. -/
theorem getElem?_leading : xs[leading a xs]? ≠ some a := by
  induction xs with
  | nil => simp
  | cons b xs ih =>
    by_cases hb : b = a
    · subst hb
      rw [leading_cons_self, List.getElem?_cons_succ]
      exact ih
    · rw [leading_cons_ne hb]
      simpa using hb

theorem getElem?_of_lt_leading {i : ℕ} (h : i < leading a xs) : xs[i]? = some a := by
  induction xs generalizing i with
  | nil => simp [leading] at h
  | cons b xs ih =>
    by_cases hb : b = a
    · subst hb
      rw [leading_cons_self] at h
      cases i with
      | zero => rfl
      | succ i => exact ih (by omega)
    · rw [leading_cons_ne hb] at h
      omega

/-- As long as only the leading ones are taken, nothing else matters. -/
theorem take_eq_replicate_iff : xs.take m = List.replicate m a ↔ m ≤ leading a xs := by
  constructor
  · intro h
    by_contra hm
    have hat := congrArg (fun zs => zs[leading a xs]?) h
    rw [List.getElem?_take_of_lt (by omega), List.getElem?_replicate, if_pos (by omega)] at hat
    exact getElem?_leading hat
  · intro h
    refine List.ext_getElem? fun i => ?_
    rw [List.getElem?_replicate]
    split_ifs with hi
    · rw [List.getElem?_take_of_lt hi]
      exact getElem?_of_lt_leading (by omega)
    · exact List.getElem?_eq_none (by rw [List.length_take]; omega)

/-- Two lists with different numbers of leading ones agree on these only. -/
theorem take_eq_take_iff (h : leading a xs < leading a ys) :
    xs.take m = ys.take m ↔ xs.take m = List.replicate m a := by
  rw [take_eq_replicate_iff]
  constructor
  · intro heq
    by_contra hm
    have hat := congrArg (fun zs => zs[leading a xs]?) heq
    rw [List.getElem?_take_of_lt (by omega), List.getElem?_take_of_lt (by omega),
      getElem?_of_lt_leading h] at hat
    exact getElem?_leading hat
  · intro hm
    exact (take_eq_replicate_iff.mpr hm).trans (take_eq_replicate_iff.mpr (by omega)).symm

end Leading

section Pieces

/-- The rest of a stream, where what came before it has left this state. -/
def decodeFrom (d : Decoder) (bytes : List ℕ) : Text := (d.run bytes).1 ++ (d.run bytes).2.flush

/-- A byte continues the character that is not complete. -/
def Decoder.Continues (d : Decoder) (byte : ℕ) : Prop :=
  d.needed ≠ 0 ∧ d.lower ≤ byte ∧ byte ≤ d.upper

/-- The end of the first bytes lies inside the bytes of one character. -/
def Inside (first second : List ℕ) : Prop :=
  ∃ byte ∈ second.head?, (Decoder.initial.run first).2.Continues byte

theorem decode_append_eq (first second : List ℕ) :
    decode (first ++ second) = (Decoder.initial.run first).1 ++
      decodeFrom (Decoder.initial.run first).2 second := by
  rw [decode, Decoder.run_append, decodeFrom, List.append_assoc]

theorem decodeFrom_cons (d : Decoder) (byte : ℕ) (bytes : List ℕ) :
    decodeFrom d (byte :: bytes) = (d.step byte).1 ++ decodeFrom (d.step byte).2 bytes := by
  rw [decodeFrom, Decoder.run, decodeFrom, List.append_assoc]

theorem decodeFrom_complete {d : Decoder} (h : d.needed = 0) (bytes : List ℕ) :
    decodeFrom d bytes = decode bytes := by
  cases bytes with
  | nil => simp [decodeFrom, decode, Decoder.run, Decoder.flush, h, Decoder.initial]
  | cons byte bytes =>
    have hstep : d.step byte = Decoder.initial.step byte := by
      rw [step_initial, Decoder.step, if_pos h]
    rw [decodeFrom_cons, hstep, ← decodeFrom_cons]
    rfl

theorem step_interrupted {d : Decoder} {byte : ℕ} (hneeded : d.needed ≠ 0)
    (h : ¬d.Continues byte) :
    d.step byte = (replacement :: (Decoder.first byte).1, (Decoder.first byte).2) := by
  have hout : byte < d.lower ∨ d.upper < byte := by
    by_contra hin
    push Not at hin
    exact h ⟨hneeded, hin⟩
  rw [Decoder.step, if_neg hneeded, if_pos hout]

/-- Where nothing is continued, a character that is not complete is replaced. -/
theorem decodeFrom_interrupted {d : Decoder} {bytes : List ℕ}
    (h : ∀ byte ∈ bytes.head?, ¬d.Continues byte) :
    decodeFrom d bytes = d.flush ++ decode bytes := by
  by_cases hneeded : d.needed = 0
  · rw [decodeFrom_complete hneeded, Decoder.flush, if_pos hneeded, List.nil_append]
  cases bytes with
  | nil => exact (List.append_nil d.flush).symm
  | cons byte bytes =>
    have hinterrupted := step_interrupted hneeded (h byte rfl)
    have hdecode : decode (byte :: bytes) =
        (Decoder.first byte).1 ++ decodeFrom (Decoder.first byte).2 bytes := by
      rw [← step_initial, ← decodeFrom_cons]
      rfl
    rw [decodeFrom_cons, hinterrupted, hdecode, Decoder.flush, if_neg hneeded]
    rfl

theorem decode_append {first second : List ℕ} (h : ¬Inside first second) :
    decode (first ++ second) = decode first ++ decode second := by
  have hclean : ∀ byte ∈ second.head?, ¬(Decoder.initial.run first).2.Continues byte :=
    fun byte hbyte hcontinues => h ⟨byte, hbyte, hcontinues⟩
  rw [decode_append_eq, decodeFrom_interrupted hclean, ← List.append_assoc]
  rfl

end Pieces

section Cuts

/-- The bounds of the next byte are those of a continuation. -/
structure Decoder.Ready (d : Decoder) : Prop where
  lower : 0x80 ≤ d.lower
  upper : d.upper ≤ 0xBF

theorem ready_initial : Decoder.initial.Ready := ⟨le_rfl, le_rfl⟩

theorem ready_first (byte : ℕ) : (Decoder.first byte).2.Ready := by
  unfold Decoder.first
  split_ifs <;> constructor <;> simp [Decoder.initial]

theorem Decoder.Ready.step {d : Decoder} (byte : ℕ) : (d.step byte).2.Ready := by
  unfold Decoder.step
  split_ifs
  · exact ready_first byte
  · exact ready_first byte
  · exact ready_initial
  · exact ⟨le_rfl, le_rfl⟩

theorem ready_run {d : Decoder} (h : d.Ready) (bytes : List ℕ) : (d.run bytes).2.Ready := by
  induction bytes generalizing d with
  | nil => exact h
  | cons byte bytes ih => exact ih (Decoder.Ready.step byte)

/-- A byte that continues is replaced where it comes first. -/
theorem first_continuation {d : Decoder} {byte : ℕ} (hd : d.Ready) (h : d.Continues byte) :
    Decoder.first byte = ([replacement], .initial) := by
  have hlower := hd.lower.trans h.2.1
  have hupper := h.2.2.trans hd.upper
  have h₁ : ¬byte < 0x80 := by omega
  have h₂ : ¬(0xC2 ≤ byte ∧ byte ≤ 0xDF) := by omega
  have h₃ : ¬(0xE0 ≤ byte ∧ byte ≤ 0xEF) := by omega
  have h₄ : ¬(0xF0 ≤ byte ∧ byte ≤ 0xF4) := by omega
  rw [Decoder.first, if_neg h₁, if_neg h₂, if_neg h₃, if_neg h₄]

/-- What a byte that continues does: it completes the character, or more are needed. -/
theorem step_continues {d : Decoder} {byte : ℕ} (h : d.Continues byte) :
    (∃ c, d.step byte = ([c], .initial)) ∨
      ((d.step byte).1 = [] ∧ (d.step byte).2.needed ≠ 0) := by
  have hin : ¬(byte < d.lower ∨ d.upper < byte) := by
    have hbounds := h.2
    omega
  have hneeded := h.1
  rw [Decoder.step, if_neg hneeded, if_neg hin]
  split_ifs with hone
  · exact .inl ⟨_, rfl⟩
  · refine .inr ⟨rfl, ?_⟩
    dsimp only
    omega

theorem leading_append_mono {s t : Text} (first : Text)
    (h : leading replacement s ≤ leading replacement t) :
    leading replacement (first ++ s) ≤ leading replacement (first ++ t) := by
  induction first with
  | nil => exact h
  | cons c first ih =>
    by_cases hc : c = replacement
    · subst hc
      simp only [List.cons_append, leading_cons_self]
      exact Nat.succ_le_succ ih
    · simp only [List.cons_append, leading_cons_ne hc]
      exact le_rfl

theorem leading_cons_le (c : Char) (s : Text) :
    leading replacement (c :: s) ≤ leading replacement s + 1 := by
  by_cases hc : c = replacement
  · rw [hc, leading_cons_self]
  · rw [leading_cons_ne hc]
    exact Nat.zero_le _

/-- Read in pieces from the same state, a stream gives at least as many leading replacements; and at
most one less where the pieces start anew inside a character. -/
structure Dominates (pieces : List (List ℕ)) (piece : List ℕ) (d : Decoder) : Prop where
  same : leading replacement (decodeFrom d (piece ++ pieces.flatten)) ≤
    leading replacement (decodeFrom d piece ++ pieces.flatMap decode)
  anew : d.needed ≠ 0 → leading replacement (decodeFrom d (piece ++ pieces.flatten)) ≤
    leading replacement (decode piece ++ pieces.flatMap decode) + 1

/-- Where a byte continues a character, the pieces that start with it are not behind. -/
theorem Dominates.continues {pieces : List (List ℕ)} {piece : List ℕ} {byte : ℕ} {d : Decoder}
    (h : ∀ d : Decoder, d.Ready → Dominates pieces piece d) (hd : d.Ready)
    (hcontinues : d.Continues byte) :
    leading replacement (decodeFrom d (byte :: piece ++ pieces.flatten)) ≤
      leading replacement (decode (byte :: piece) ++ pieces.flatMap decode) := by
  have hpieces : decode (byte :: piece) = replacement :: decode piece := by
    change decodeFrom .initial (byte :: piece) = _
    rw [decodeFrom_cons, step_initial, first_continuation hd hcontinues]
    rfl
  rw [hpieces, List.cons_append, List.cons_append, leading_cons_self, decodeFrom_cons]
  rcases step_continues hcontinues with ⟨c, hstep⟩ | ⟨hnone, hmore⟩
  · rw [hstep]
    have hrest := (h _ ready_initial).same
    exact (leading_cons_le c _).trans (Nat.succ_le_succ hrest)
  · rw [hnone, List.nil_append]
    exact (h _ (Decoder.Ready.step byte)).anew hmore

theorem Dominates.cons {pieces : List (List ℕ)} {piece : List ℕ} {byte : ℕ}
    (h : ∀ d : Decoder, d.Ready → Dominates pieces piece d) {d : Decoder} (hd : d.Ready) :
    Dominates pieces (byte :: piece) d := by
  have hsame : ∀ d : Decoder, leading replacement (decodeFrom d (byte :: piece ++ pieces.flatten)) ≤
      leading replacement (decodeFrom d (byte :: piece) ++ pieces.flatMap decode) := by
    intro d
    rw [List.cons_append, decodeFrom_cons, decodeFrom_cons, List.append_assoc]
    exact leading_append_mono _ (h _ (Decoder.Ready.step byte)).same
  refine ⟨hsame d, fun hneeded => ?_⟩
  by_cases hcontinues : d.Continues byte
  · exact (Dominates.continues h hd hcontinues).trans (Nat.le_succ _)
  · have hclean : ∀ b ∈ (byte :: piece ++ pieces.flatten).head?, ¬d.Continues b := by
      rintro b ⟨⟩
      exact hcontinues
    rw [decodeFrom_interrupted hclean, Decoder.flush, if_neg hneeded, List.singleton_append,
      leading_cons_self]
    exact Nat.succ_le_succ (hsame .initial)

theorem dominates (pieces : List (List ℕ)) (piece : List ℕ) {d : Decoder} (hd : d.Ready) :
    Dominates pieces piece d := by
  induction pieces generalizing piece d with
  | nil =>
    induction piece generalizing d with
    | nil =>
      refine ⟨by simp, fun hneeded => ?_⟩
      have hflush : decodeFrom d ([] ++ [].flatten) = [replacement] := by
        change d.flush = _
        rw [Decoder.flush, if_neg hneeded]
      rw [hflush]
      exact leading_cons_le replacement []
    | cons byte piece ih => exact Dominates.cons (fun d hd => ih hd) hd
  | cons next pieces ihpieces =>
    induction piece generalizing d with
    | nil =>
      have hnext := ihpieces next hd
      refine ⟨?_, hnext.anew⟩
      change leading replacement (decodeFrom d (next ++ pieces.flatten)) ≤
        leading replacement (d.flush ++ (decode next ++ pieces.flatMap decode))
      by_cases hneeded : d.needed = 0
      · rw [decodeFrom_complete hneeded, Decoder.flush, if_pos hneeded]
        exact (ihpieces next ready_initial).same
      · rw [Decoder.flush, if_neg hneeded, List.singleton_append, leading_cons_self]
        exact hnext.anew hneeded
    | cons byte piece ih => exact Dominates.cons (fun d hd => ih hd) hd

end Cuts

section Limit

theorem encode_append (s t : Text) :
    Utf16.encode (s ++ t) = Utf16.encode s ++ Utf16.encode t := List.flatMap_append

theorem leading_encode (s : Text) :
    leading 0xFFFD (Utf16.encode s) = leading replacement s := by
  induction s with
  | nil => rfl
  | cons c s ih =>
    have hcons : Utf16.encode (c :: s) = Utf16.units c ++ Utf16.encode s := List.flatMap_cons
    have hreplacement : Utf16.units replacement = [0xFFFD] := by decide
    by_cases hc : c = replacement
    · subst hc
      rw [hcons, hreplacement, List.singleton_append, leading_cons_self, leading_cons_self, ih]
    · have hnat : c.toNat ≠ 0xFFFD := fun he => hc (Char.toNat_inj.mp he)
      have hbounds := Utf16.toNat_bounds c
      rw [hcons, leading_cons_ne hc, Utf16.units]
      split_ifs
      · exact leading_cons_ne hnat
      · exact leading_cons_ne (by omega)

/-- Up to the limit, nothing but replacements follows the characters that are complete at the end of
the first bytes. -/
def Drowned (limit : ℕ) (first second : List ℕ) : Prop :=
  (Utf16.encode (decode (first ++ second))).take limit =
    (Utf16.encode (Decoder.initial.run first).1 ++ List.replicate limit 0xFFFD).take limit

variable {limit : ℕ} {first second : List ℕ}

theorem take_append_left_iff {α : Type} {xs ys zs : List α} :
    (xs ++ ys).take limit = (xs ++ zs).take limit ↔
      ys.take (limit - xs.length) = zs.take (limit - xs.length) := by
  rw [List.take_append, List.take_append, List.append_cancel_left_eq]

/-- A cut inside a character shows within the limit, unless it is drowned. -/
theorem take_cut_iff {pieces : List (List ℕ)} {piece : List ℕ} (hinside : Inside first piece) :
    (Utf16.encode (decode first ++ (piece :: pieces).flatMap decode)).take limit =
        (Utf16.encode (decode (first ++ (piece :: pieces).flatten))).take limit ↔
      Drowned limit first (piece :: pieces).flatten := by
  obtain ⟨byte, hbyte, hcontinues⟩ := hinside
  cases piece with
  | nil => cases hbyte
  | cons b piece =>
    cases hbyte
    have hready := ready_run ready_initial first
    have hneeded := hcontinues.1
    have hbehind := Dominates.continues (fun d hd => dominates pieces piece hd) hready hcontinues
    have hpieces : decode first ++ ((byte :: piece) :: pieces).flatMap decode =
        (Decoder.initial.run first).1 ++
          replacement :: (decode (byte :: piece) ++ pieces.flatMap decode) := by
      rw [decode, Decoder.flush, if_neg hneeded, List.append_assoc]
      rfl
    have hstream : decode (first ++ ((byte :: piece) :: pieces).flatten) =
        (Decoder.initial.run first).1 ++
          decodeFrom (Decoder.initial.run first).2 (byte :: piece ++ pieces.flatten) :=
      decode_append_eq first _
    have hless : leading 0xFFFD (Utf16.encode
          (decodeFrom (Decoder.initial.run first).2 (byte :: piece ++ pieces.flatten))) <
        leading 0xFFFD (Utf16.encode
          (replacement :: (decode (byte :: piece) ++ pieces.flatMap decode))) := by
      rw [leading_encode, leading_encode, leading_cons_self]
      exact Nat.lt_succ_of_le hbehind
    rw [Drowned, hpieces, hstream, encode_append, encode_append, take_append_left_iff,
      take_append_left_iff, eq_comm, take_eq_take_iff hless, List.take_replicate,
      Nat.min_eq_left (Nat.sub_le _ _)]

/-- What comes after a drowned cut is drowned as well. -/
theorem Drowned.later {more : List ℕ} (h : Drowned limit first (more ++ second)) :
    Drowned limit (first ++ more) second := by
  unfold Drowned at h ⊢
  rw [List.append_assoc, h]
  have hlonger : Utf16.encode (Decoder.initial.run (first ++ more)).1 =
      Utf16.encode (Decoder.initial.run first).1 ++
        Utf16.encode ((Decoder.initial.run first).2.run more).1 := by
    rw [Decoder.run_append, encode_append]
  have hwhole : Utf16.encode (decode (first ++ (more ++ second))) =
      Utf16.encode (Decoder.initial.run (first ++ more)).1 ++
        Utf16.encode (decodeFrom (Decoder.initial.run (first ++ more)).2 second) := by
    rw [← List.append_assoc, decode_append_eq, encode_append]
  rw [hwhole] at h
  generalize Utf16.encode (Decoder.initial.run (first ++ more)).1 = longer at h hlonger ⊢
  rw [← h, take_append_left_iff]
  subst hlonger
  rw [List.append_assoc, take_append_left_iff] at h
  generalize Utf16.encode ((Decoder.initial.run first).2.run more).1 = added at h ⊢
  have hdrop := congrArg (List.drop added.length) h
  rw [List.drop_take, List.drop_take, List.drop_left, List.drop_replicate, List.take_replicate]
    at hdrop
  rw [List.length_append, ← Nat.sub_sub, hdrop, List.take_replicate]
  congr 1
  omega

/-- Read in pieces, a stream gives the start of its text exactly where every cut between two pieces
that lies inside a character is drowned. -/
theorem take_pieces_iff (limit : ℕ) (pieces : List (List ℕ)) :
    (Utf16.encode (pieces.flatMap decode)).take limit =
        (Utf16.encode (decode pieces.flatten)).take limit ↔
      ∀ before after, pieces = before ++ after → Inside before.flatten after.flatten →
        Drowned limit before.flatten after.flatten := by
  -- the pieces from the left up to the first cut inside a character are what they are in the stream
  have hgeneral : ∀ (pieces : List (List ℕ)) (read : List ℕ),
      ((Utf16.encode (decode read ++ pieces.flatMap decode)).take limit =
        (Utf16.encode (decode (read ++ pieces.flatten))).take limit ↔
      ∀ before after, pieces = before ++ after → Inside (read ++ before.flatten) after.flatten →
        Drowned limit (read ++ before.flatten) after.flatten) := by
    intro pieces
    induction pieces with
    | nil =>
      intro read
      refine iff_of_true (by simp) fun before after hsplit hinside => ?_
      obtain ⟨-, rfl⟩ := List.nil_eq_append_iff.mp hsplit
      obtain ⟨byte, hbyte, -⟩ := hinside
      cases hbyte
    | cons piece pieces ih =>
      intro read
      have hlater : (∀ before after, piece :: pieces = before ++ after →
            Inside (read ++ before.flatten) after.flatten →
            Drowned limit (read ++ before.flatten) after.flatten) ↔
          (Inside read (piece ++ pieces.flatten) → Drowned limit read (piece ++ pieces.flatten)) ∧
          ∀ before after, pieces = before ++ after →
            Inside (read ++ piece ++ before.flatten) after.flatten →
            Drowned limit (read ++ piece ++ before.flatten) after.flatten := by
        constructor
        · intro h
          refine ⟨?_, fun before after hsplit => ?_⟩
          · simpa using h [] (piece :: pieces) rfl
          · simpa using h (piece :: before) after (by rw [hsplit]; rfl)
        · rintro ⟨hfirst, hrest⟩ before after hsplit
          cases before with
          | nil =>
            rw [List.nil_append] at hsplit
            subst hsplit
            simpa using hfirst
          | cons next before =>
            obtain ⟨rfl, htail⟩ := List.cons.inj hsplit
            simpa using hrest before after htail
      rw [hlater]
      by_cases hinside : Inside read piece
      · rw [take_cut_iff hinside]
        have hin : Inside read (piece ++ pieces.flatten) := by
          obtain ⟨byte, hbyte, hcontinues⟩ := hinside
          exact ⟨byte, by rw [List.head?_append, hbyte]; rfl, hcontinues⟩
        constructor
        · intro hdrowned
          refine ⟨fun _ => hdrowned, fun before after hsplit _ => ?_⟩
          rw [List.append_assoc]
          refine Drowned.later ?_
          rw [List.append_assoc, ← List.flatten_append, ← hsplit]
          exact hdrowned
        · exact fun h => h.1 hin
      · rw [List.flatMap_cons, List.flatten_cons, ← List.append_assoc, ← List.append_assoc,
          ← decode_append hinside, ih (read ++ piece)]
        refine ⟨fun h => ⟨fun hin => ?_, h⟩, fun h => h.2⟩
        cases piece with
        | nil => simpa using h [] pieces rfl (by simpa using hin)
        | cons byte piece => exact absurd hin hinside
  have hstart := hgeneral pieces []
  have hnone : decode [] = [] := rfl
  simpa [hnone] using hstart

end Limit

end AppBuilder.Encoding.Utf8
