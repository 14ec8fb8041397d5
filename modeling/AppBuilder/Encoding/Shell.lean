import Mathlib.Data.List.Basic
import Mathlib.Data.Nat.Notation

/-! How the POSIX shell reads the words of a command, over code units: quoting, blanks, and what
takes effect because it is not quoted. -/
namespace AppBuilder.Encoding.Shell

/-- A unit of a word. Reserved words, aliases and assignments are recognized by units that are not
quoted. -/
structure Letter where
  unit : ℕ
  quoted : Bool
  deriving DecidableEq, Repr

abbrev Word : Type := List Letter

def wordValue (word : Word) : List ℕ := word.map (·.unit)

/-- What the shell does with a line beyond reading its words. -/
inductive Effect where
  | operator
  | expansion
  | pattern
  | tilde
  | comment
  | unterminated
  deriving DecidableEq, Repr

inductive Mode where
  | unquoted
  | escaped
  | singleQuoted
  | doubleQuoted
  | doubleEscaped
  deriving DecidableEq, Repr

/-- The words so far, and the one that has begun. -/
structure State where
  words : List Word
  word : Option Word
  mode : Mode
  deriving DecidableEq, Repr

def start : State := ⟨[], none, .unquoted⟩

def codes (chars : String) : List ℕ := chars.toList.map Char.toNat

def singleQuote : ℕ := '\''.toNat

def doubleQuote : ℕ := '"'.toNat

def backslash : ℕ := '\\'.toNat

def space : ℕ := ' '.toNat

def newline : ℕ := '\n'.toNat

def blanks : List ℕ := codes " \t"

/-- The units that end a word and are operators, alone or together. -/
def operators : List ℕ := codes "|&;<>()\n"

def expansions : List ℕ := codes "$\x60"

def patterns : List ℕ := codes "*?["

namespace State

/-- Letters of a word, which begins with them if it has not begun. -/
def add (s : State) (letters : List Letter) (mode : Mode) : State :=
  { s with word := some (s.word.getD [] ++ letters), mode }

/-- The end of a word, if there is one. -/
def close (s : State) : State := { s with words := s.words ++ s.word.toList, word := none }

def stepUnquoted (s : State) (u : ℕ) : Except Effect State :=
  if u = singleQuote then .ok (s.add [] .singleQuoted)
  else if u = doubleQuote then .ok (s.add [] .doubleQuoted)
  else if u = backslash then .ok { s with mode := .escaped }
  else if u ∈ blanks then .ok s.close
  else if u ∈ operators then .error .operator
  else if u ∈ expansions then .error .expansion
  else if u ∈ patterns then .error .pattern
  else if u = '~'.toNat ∧ s.word = none then .error .tilde
  else if u = '#'.toNat ∧ s.word = none then .error .comment
  else .ok (s.add [⟨u, false⟩] .unquoted)

def step (s : State) (u : ℕ) : Except Effect State :=
  match s.mode with
  | .unquoted => s.stepUnquoted u
  | .escaped =>
    -- a line goes on after a backslash at its end
    if u = newline then .ok { s with mode := .unquoted } else .ok (s.add [⟨u, true⟩] .unquoted)
  | .singleQuoted =>
    if u = singleQuote then .ok { s with mode := .unquoted }
    else .ok (s.add [⟨u, true⟩] .singleQuoted)
  | .doubleQuoted =>
    if u = doubleQuote then .ok { s with mode := .unquoted }
    else if u = backslash then .ok { s with mode := .doubleEscaped }
    else if u ∈ expansions then .error .expansion
    else .ok (s.add [⟨u, true⟩] .doubleQuoted)
  | .doubleEscaped =>
    if u = newline then .ok { s with mode := .doubleQuoted }
    else if u ∈ expansions ∨ u = doubleQuote ∨ u = backslash then
      .ok (s.add [⟨u, true⟩] .doubleQuoted)
    else .ok (s.add [⟨backslash, true⟩, ⟨u, true⟩] .doubleQuoted)

def run (s : State) (line : List ℕ) : Except Effect State := line.foldlM step s

end State

/-- The words of a line, unless something in it takes effect. -/
def split (line : List ℕ) : Except Effect (List Word) :=
  match start.run line with
  | .error effect => .error effect
  | .ok s => if s.mode = .unquoted then .ok s.close.words else .error .unterminated

/-- A word all of which is quoted. -/
def quotedWord (value : List ℕ) : Word := value.map fun u => ⟨u, true⟩

theorem wordValue_quotedWord (value : List ℕ) : wordValue (quotedWord value) = value := by
  rw [wordValue, quotedWord, List.map_map]
  exact List.map_id value

theorem quoted_of_mem {value : List ℕ} {letter : Letter} (h : letter ∈ quotedWord value) :
    letter.quoted = true := by
  obtain ⟨u, -, rfl⟩ := List.mem_map.mp h
  rfl

example : split (codes "'a b'\"c\"") = .ok [quotedWord (codes "a bc")] := by decide

example : split (codes "a;b") = .error .operator := by decide

section Rules

variable {s s' : State} {u : ℕ} {value line rest : List ℕ} {letters more : Word} {mode : Mode}

theorem State.run_cons (h : s.step u = .ok s') : s.run (u :: rest) = s'.run rest := by
  rw [State.run, List.foldlM_cons, h]
  rfl

theorem State.run_append (h : s.run line = .ok s') : s.run (line ++ rest) = s'.run rest := by
  rw [State.run] at h
  rw [State.run, List.foldlM_append, h]
  rfl

theorem State.add_add (s : State) (letters more : Word) (mode mode' : Mode) :
    (s.add letters mode).add more mode' = s.add (letters ++ more) mode' := by
  simp [State.add]

/-- Units that are taken as they are in some mode. -/
theorem State.run_taken
    (h : ∀ s : State, s.mode = mode → ∀ u ∈ value, s.step u = .ok (s.add [⟨u, true⟩] mode))
    (s : State) (letters : Word) :
    (s.add letters mode).run value = .ok (s.add (letters ++ quotedWord value) mode) := by
  induction value generalizing letters with
  | nil =>
    rw [quotedWord, List.map_nil, List.append_nil]
    rfl
  | cons u value ih =>
    have hstep := h (s.add letters mode) rfl u List.mem_cons_self
    have hrest := ih (fun s hs u hu => h s hs u (List.mem_cons_of_mem _ hu))
      (letters ++ [⟨u, true⟩])
    rw [State.run_cons hstep, State.add_add, hrest, List.append_assoc]
    rfl

/-- A part of a line that adds these letters to a word and takes no other effect. -/
def Reads (line : List ℕ) (letters : Word) : Prop :=
  ∀ s : State, s.mode = .unquoted → s.run line = .ok (s.add letters .unquoted)

/-- Parts that stand next to each other make one word. -/
theorem Reads.append (h : Reads line letters) (hrest : Reads rest more) :
    Reads (line ++ rest) (letters ++ more) := by
  intro s hs
  rw [State.run_append (h s hs), hrest _ rfl, State.add_add]

theorem reads_singleQuoted (h : singleQuote ∉ value) :
    Reads (singleQuote :: (value ++ [singleQuote])) (quotedWord value) := by
  intro s hs
  have hopen : s.step singleQuote = .ok (s.add [] .singleQuoted) := by
    rw [State.step, hs]
    rfl
  have htaken : ∀ s : State, s.mode = .singleQuoted → ∀ u ∈ value,
      s.step u = .ok (s.add [⟨u, true⟩] .singleQuoted) := by
    intro s hs u hu
    have hne : u ≠ singleQuote := fun he => h (he ▸ hu)
    rw [State.step, hs]
    exact if_neg hne
  rw [State.run_cons hopen, State.run_append (State.run_taken htaken s [])]
  rfl

theorem reads_doubleQuoted
    (h : ∀ u ∈ value, u ≠ doubleQuote ∧ u ≠ backslash ∧ u ∉ expansions) :
    Reads (doubleQuote :: (value ++ [doubleQuote])) (quotedWord value) := by
  intro s hs
  have hopen : s.step doubleQuote = .ok (s.add [] .doubleQuoted) := by
    rw [State.step, hs]
    rfl
  have htaken : ∀ s : State, s.mode = .doubleQuoted → ∀ u ∈ value,
      s.step u = .ok (s.add [⟨u, true⟩] .doubleQuoted) := by
    intro s hs u hu
    obtain ⟨hclose, hback, hexpansion⟩ := h u hu
    rw [State.step, hs]
    dsimp only
    rw [if_neg hclose, if_neg hback, if_neg hexpansion]
  rw [State.run_cons hopen, State.run_append (State.run_taken htaken s [])]
  rfl

theorem split_of_run {words : List Word} (h : start.run line = .ok s) (hmode : s.mode = .unquoted)
    (hwords : s.close.words = words) : split line = .ok words := by
  rw [split, h]
  dsimp only
  rw [if_pos hmode, hwords]

/-- Words with a space between them. -/
theorem run_words {α : Type} {token : α → List ℕ} {word : α → Word}
    (h : ∀ x, Reads (token x) (word x)) (x : α) (xs : List α) (words : List Word) :
    ∃ s, (State.mk words none .unquoted).run ([space].intercalate ((x :: xs).map token)) = .ok s ∧
      s.mode = .unquoted ∧ s.close.words = words ++ (x :: xs).map word := by
  induction xs generalizing x words with
  | nil =>
    refine ⟨(State.mk words none .unquoted).add (word x) .unquoted, ?_, rfl, rfl⟩
    rw [List.map_singleton, List.intercalate_singleton, h x _ rfl]
  | cons y ys ih =>
    have hspace : ((State.mk words none .unquoted).add (word x) .unquoted).step space =
        .ok ⟨words ++ [word x], none, .unquoted⟩ := rfl
    obtain ⟨s, hrun, hmode, hclose⟩ := ih y (words ++ [word x])
    refine ⟨s, ?_, hmode, ?_⟩
    · rw [List.map_cons, List.map_cons, List.intercalate_cons_cons, ← List.map_cons,
        List.append_assoc, State.run_append (h x _ rfl), List.singleton_append,
        State.run_cons hspace, hrun]
    · rw [hclose, List.map_cons, List.append_assoc]
      rfl

theorem split_words {α : Type} {token : α → List ℕ} {word : α → Word}
    (h : ∀ x, Reads (token x) (word x)) (x : α) (xs : List α) :
    split ([space].intercalate ((x :: xs).map token)) = .ok ((x :: xs).map word) := by
  obtain ⟨s, hrun, hmode, hclose⟩ := run_words h x xs []
  exact split_of_run hrun hmode hclose

end Rules

end AppBuilder.Encoding.Shell
