import AppBuilder.Encoding.LineStream
import AppBuilder.Encoding.Utf8Cut
import Mathlib.Data.List.TakeWhile

/-! Streams that are made of lines and can be cut at any byte. -/
namespace AppBuilder.Encoding

open Utf8

section Feed

variable {S A : Type} (step : S → A → S) (halted : S → Bool)

/-- The items are taken one by one until the reader halts. -/
def feed (state : S) : List A → S
  | [] => state
  | item :: items =>
    if halted (step state item) then step state item else feed (step state item) items

theorem feed_append {state : S} (items more : List A) (hstate : halted state = false) :
    feed step halted state (items ++ more) =
      if halted (feed step halted state items) then feed step halted state items
      else feed step halted (feed step halted state items) more := by
  induction items generalizing state with
  | nil => simp [feed, hstate]
  | cons item items ih =>
    rw [List.cons_append, feed, feed]
    cases hhalt : halted (step state item) with
    | true => simp [hhalt]
    | false => simpa using ih hhalt

end Feed

section Lines

/-- The lines, each with its end. -/
def unlines (lines : List Text) : Text := lines.flatMap (· ++ ['\n'])

def IsLine (line : Text) : Prop := ∀ c ∈ line, isNewline c = false

variable {line rest s : Text} {lines : List Text}

theorem unlines_cons (line : Text) (lines : List Text) :
    unlines (line :: lines) = line ++ '\n' :: unlines lines := by
  simp [unlines]

theorem unlines_append (lines more : List Text) :
    unlines (lines ++ more) = unlines lines ++ unlines more := List.flatMap_append

theorem isLine_of_all (h : (line.all fun c => !isNewline c) = true) : IsLine line := fun c hc => by
  have hchar := List.all_eq_true.mp h c hc
  simpa using hchar

theorem IsLine.isPrefix (h : IsLine line) (hs : s <+: line) : IsLine s :=
  fun c hc => h c (hs.subset hc)

theorem isLine_append (h : IsLine line) (hs : IsLine s) : IsLine (line ++ s) := by
  intro c hc
  rcases List.mem_append.mp hc with hc | hc
  · exact h c hc
  · exact hs c hc

theorem breakLine_line (h : IsLine line) (endOfStream : Bool) (rest : Text) :
    breakLine endOfStream (line ++ '\n' :: rest) = some (line, rest) := by
  have hall : ∀ c ∈ line, (!isNewline c) = true := fun c hc => by rw [h c hc]; rfl
  have htake : (line ++ '\n' :: rest).takeWhile (fun c => !isNewline c) = line := by
    rw [List.takeWhile_append_of_pos hall]
    exact List.append_nil _
  have hdrop : (line ++ '\n' :: rest).dropWhile (fun c => !isNewline c) = '\n' :: rest := by
    rw [List.dropWhile_append_of_pos hall]
    rfl
  rw [breakLine, htake, hdrop]
  cases rest <;> rfl

theorem breakLine_unfinished (h : IsLine line) (endOfStream : Bool) :
    breakLine endOfStream line = none := by
  have hdrop : line.dropWhile (fun c => !isNewline c) = [] :=
    List.dropWhile_eq_nil_iff.mpr fun c hc => by rw [h c hc]; rfl
  rw [breakLine, hdrop]

/-- A text that is cut has whole lines, and the start of the next one. -/
theorem cut_unlines (hlines : ∀ line ∈ lines, IsLine line) (h : s <+: unlines lines) :
    ∃ read rest, read <+: lines ∧ IsLine rest ∧ s = unlines read ++ rest := by
  induction lines generalizing s with
  | nil =>
    cases List.prefix_nil.mp h
    exact ⟨[], [], List.prefix_rfl, fun c hc => (nomatch hc), rfl⟩
  | cons line lines ih =>
    have hline := hlines line List.mem_cons_self
    have hwhole : unlines (line :: lines) = (line ++ ['\n']) ++ unlines lines := by
      rw [unlines_cons, List.append_assoc]
      rfl
    rw [hwhole] at h
    rcases List.prefix_or_prefix_of_prefix h (List.prefix_append _ _) with hs | hs
    · rcases List.prefix_concat_iff.mp hs with rfl | hs
      · exact ⟨[line], [], ⟨lines, rfl⟩, fun c hc => (nomatch hc), by simp [unlines]⟩
      · exact ⟨[], s, List.nil_prefix, hline.isPrefix hs, rfl⟩
    · obtain ⟨more, rfl⟩ := hs
      have hmore := (List.prefix_append_right_inj _).mp h
      obtain ⟨read, rest, hread, hrest, rfl⟩ :=
        ih (fun l hl => hlines l (List.mem_cons_of_mem _ hl)) hmore
      refine ⟨line :: read, rest, List.cons_prefix_cons.mpr ⟨rfl, hread⟩, hrest, ?_⟩
      simp [unlines]

variable {S : Type} (readLine : S → Text → S) (halted : S → Bool)

theorem readLines_unlines {state : S} (hlines : ∀ line ∈ lines, IsLine line) (hrest : IsLine rest)
    (endOfStream : Bool) :
    (readLines readLine halted endOfStream state (unlines lines ++ rest)).1 =
      feed readLine halted state lines := by
  induction lines generalizing state with
  | nil => rw [unlines, List.flatMap_nil, List.nil_append,
      readLines_of_none readLine halted (breakLine_unfinished hrest endOfStream), feed]
  | cons line lines ih =>
    have hbreak := breakLine_line (hlines line List.mem_cons_self) endOfStream (unlines lines ++ rest)
    rw [unlines_cons, List.append_assoc, List.cons_append,
      readLines_of_some readLine halted hbreak, feed]
    split
    · rfl
    · exact ih fun l hl => hlines l (List.mem_cons_of_mem _ hl)

/-- What is left in the buffer has no complete line. -/
theorem readLines_rest {state : S} (endOfStream : Bool) (buffer : Text)
    (h : halted (readLines readLine halted endOfStream state buffer).1 = false) :
    breakLine endOfStream (readLines readLine halted endOfStream state buffer).2 = none := by
  induction hn : buffer.length using Nat.strong_induction_on generalizing state buffer with
  | _ n ih =>
    cases hline : breakLine endOfStream buffer with
    | none => rwa [readLines_of_none readLine halted hline]
    | some found =>
      obtain ⟨line, rest⟩ := found
      rw [readLines_of_some readLine halted hline] at h ⊢
      split at h
      · next hhalt =>
        rw [hhalt] at h
        cases h
      · next hhalt =>
        rw [if_neg hhalt]
        exact ih rest.length (hn ▸ breakLine_length hline) rest h rfl

end Lines

section Cut

variable {S : Type} (readLine : S → Text → S) (halted : S → Bool)

/-- Reads the chunks that arrive before the stream fails. -/
def readArrived (state : S) (decoder : TextDecoder) (buffer : Text) : List (List ℕ) → S
  | [] => state
  | chunk :: chunks =>
    let (s, decoder) := decoder.decodeChunk chunk
    let (state, buffer) := readLines readLine halted false state (buffer ++ s)
    if halted state then state else readArrived state decoder buffer chunks

theorem readArrived_eq {state : S} (decoder : TextDecoder) {buffer : Text}
    (chunks : List (List ℕ)) (hstate : halted state = false)
    (hbuffer : breakLine false buffer = none) :
    readArrived readLine halted state decoder buffer chunks =
      (readLines readLine halted false state
        (buffer ++ (decoder.decodeChunk chunks.flatten).1)).1 := by
  induction chunks generalizing state decoder buffer with
  | nil => simp [readArrived, TextDecoder.decodeChunk_nil, readLines_of_none readLine halted hbuffer]
  | cons chunk chunks ih =>
    have htext := decoder.decodeChunk_append chunk chunks.flatten
    rw [List.flatten_cons, htext, ← List.append_assoc buffer,
      readLines_append readLine halted false _ _ hstate]
    unfold readArrived
    dsimp only
    split
    · rfl
    · next hhalt =>
      rw [Bool.not_eq_true] at hhalt
      exact ih _ hhalt (readLines_rest readLine halted false _ hhalt)

variable {bytes : List ℕ} {s : Text}

/-- The decoder gives the characters before the cut; one that was cut it may replace at the end. -/
theorem run_cut (h : bytes <+: encode s) :
    ∃ kept, kept <+: s ∧ (Decoder.initial.run bytes).1 = kept := by
  rw [List.prefix_iff_eq_take] at h
  by_cases hwhole : (encode s).length ≤ bytes.length
  · rw [h, List.take_of_length_le hwhole, run_encode]
    exact ⟨s, List.prefix_rfl, rfl⟩
  · obtain ⟨kept, c, rest, rfl, hle, hlt⟩ := exists_cut (Nat.lt_of_not_le hwhole)
    refine ⟨kept, List.prefix_append _ _, ?_⟩
    rw [bytes_append, encode_cons, List.take_append, List.take_of_length_le hle,
      List.take_append_of_le_length (by omega)] at h
    have hinside : bytes.length - (encode kept).length < (encodeChar c).length := by omega
    generalize bytes.length - (encode kept).length = cut at h hinside
    rw [h, Decoder.run_append, run_encode]
    by_cases hcut : (encodeChar c).take cut = []
    · rw [hcut]
      exact List.append_nil _
    · have hsplit := (List.take_append_drop cut (encodeChar c)).symm
      by_cases hmore : (encodeChar c).drop cut = []
      · exfalso
        have hlength := List.drop_eq_nil_iff.mp hmore
        omega
      · rw [(run_inside hsplit hcut hmore).1]
        exact List.append_nil _

theorem serialize_unmarked (bomSeen : Bool) (h : s.head? ≠ some TextDecoder.byteOrderMark) :
    TextDecoder.serialize bomSeen s = s := by
  cases s with
  | nil => rfl
  | cons c rest =>
    have hc : (c == TextDecoder.byteOrderMark) = false :=
      beq_eq_false_iff_ne.mpr fun hc => h (congrArg some hc)
    rw [TextDecoder.serialize, hc, Bool.and_false]
    rfl

theorem decodeChunk_cut (hmark : s.head? ≠ some TextDecoder.byteOrderMark)
    (h : bytes <+: encode s) :
    (TextDecoder.new.decodeChunk bytes).1 <+: s := by
  obtain ⟨kept, hkept, hrun⟩ := run_cut h
  rw [TextDecoder.decodeChunk, TextDecoder.new]
  dsimp only
  rw [hrun, serialize_unmarked]
  · exact hkept
  · intro hhead
    obtain ⟨rest, rfl⟩ := hkept
    cases kept with
    | nil => cases hhead
    | cons c kept => exact hmark hhead

theorem isLine_decodeEnd (decoder : TextDecoder) : IsLine decoder.decodeEnd := by
  intro c hc
  rw [TextDecoder.decodeEnd, Decoder.flush] at hc
  split_ifs at hc
  · cases hc
  · rw [serialize_unmarked _ (by decide)] at hc
    cases List.mem_singleton.mp hc
    rfl

variable {lines : List Text} {state : S} {chunks : List (List ℕ)}

/-- Of a stream of lines that is cut, a reader takes whole lines only. -/
theorem readChunks_cut (hlines : ∀ line ∈ lines, IsLine line)
    (hmark : (unlines lines).head? ≠ some TextDecoder.byteOrderMark)
    (hcut : chunks.flatten <+: encode (unlines lines)) (hstate : halted state = false) :
    ∃ read, read <+: lines ∧
      readChunks readLine halted state TextDecoder.new [] chunks =
        feed readLine halted state read := by
  obtain ⟨read, rest, hread, hrest, htext⟩ := cut_unlines hlines (decodeChunk_cut hmark hcut)
  refine ⟨read, hread, ?_⟩
  rw [readChunks_eq readLine halted _ _ _ hstate, List.nil_append, htext, List.append_assoc]
  exact readLines_unlines readLine halted (fun l hl => hlines l (hread.subset hl))
    (isLine_append hrest (isLine_decodeEnd _)) true

theorem readArrived_cut (hlines : ∀ line ∈ lines, IsLine line)
    (hmark : (unlines lines).head? ≠ some TextDecoder.byteOrderMark)
    (hcut : chunks.flatten <+: encode (unlines lines)) (hstate : halted state = false) :
    ∃ read, read <+: lines ∧
      readArrived readLine halted state TextDecoder.new [] chunks =
        feed readLine halted state read := by
  obtain ⟨read, rest, hread, hrest, htext⟩ := cut_unlines hlines (decodeChunk_cut hmark hcut)
  refine ⟨read, hread, ?_⟩
  rw [readArrived_eq readLine halted _ _ hstate rfl, List.nil_append, htext]
  exact readLines_unlines readLine halted (fun l hl => hlines l (hread.subset hl)) hrest false

end Cut

end AppBuilder.Encoding
