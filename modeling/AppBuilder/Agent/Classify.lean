import AppBuilder.Agent.Types
import AppBuilder.Encoding.Regex
import AppBuilder.Encoding.Json
import Mathlib.Tactic.IntervalCases

/-! `agent/validation/classify.ts`: whether a failed validation is laid to the infrastructure, the
dependencies or the code. -/
namespace AppBuilder.Agent.Validation
open Encoding

/-- `\w` -/
def isWordChar (c : Char) : Bool := c.isAlphanum || c == '_'

/-- The text of a pattern with the flag `i`. -/
def ignoringCase (word : String) : List (Char → Bool) :=
  word.toList.map fun c d => c.toLower == d.toLower

/-- `.` -/
def anyChar (c : Char) : Bool := c != '\n' && c != '\r' && c != '\u2028' && c != '\u2029'

structure FailureDiagnostic where
  phase : ValidationPhase
  exitCode : Option ℕ
  stdout : Text
  stderr : Text

def infrastructureWords : List (List (Char → Bool)) :=
  ["timed out", "EAI_AGAIN", "ENOTFOUND", "ECONNRESET", "ECONNREFUSED", "ETIMEDOUT"].map
    ignoringCase

/-- `/\b50[0234]\b/` -/
def serverStatusPattern : Regex Char :=
  .seq .boundary (.seq (.one (· == '5')) (.seq (.one (· == '0'))
    (.seq (.one fun c => c == '0' || c == '2' || c == '3' || c == '4') .boundary)))

def infrastructurePatterns : List (Regex Char) :=
  infrastructureWords.map Regex.each ++ [serverStatusPattern]

def dependencyPatterns : List (Regex Char) :=
  [.seq .boundary (.seq (Regex.each (ignoringCase "E404")) .boundary),
    .seq .boundary (.seq (Regex.each (ignoringCase "ERESOLVE")) .boundary),
    Regex.each (ignoringCase "No matching version found"),
    .seq (Regex.each (ignoringCase "lock file"))
      (.seq (.star (.one anyChar)) (Regex.each (ignoringCase "out of sync")))]

def matchesAny (patterns : List (Regex Char)) (output : Text) : Bool :=
  patterns.any fun pattern => pattern.test isWordChar output

def classifyValidationFailure (diagnostic : FailureDiagnostic) : ValidationErrorCategory :=
  let output := diagnostic.stdout ++ '\n' :: diagnostic.stderr
  if diagnostic.exitCode = some 124 || matchesAny infrastructurePatterns output then .infraError
  else if diagnostic.phase = .dependencies then
    if matchesAny dependencyPatterns output then .dependencyError else .dependencyError
  else .codeError

/-- What TypeScript prints about an error. -/
structure TypeScriptDiagnostic where
  path : Text
  line : ℕ
  column : ℕ
  number : ℕ
  message : Text

/-- `path(line,col): error TSn: message` -/
def TypeScriptDiagnostic.print (diagnostic : TypeScriptDiagnostic) : Text :=
  diagnostic.path ++ '(' :: (Nat.toDigits 10 diagnostic.line ++
    ',' :: (Nat.toDigits 10 diagnostic.column ++ ')' :: ([] ++ ':' ::
      ((text " error TS" ++ Nat.toDigits 10 diagnostic.number) ++
        ':' :: (' ' :: diagnostic.message)))))

/-- Diagnostics one below the other; there may be empty lines, and an end of line after the
last one. -/
inductive Prints : List TypeScriptDiagnostic → Text → Prop where
  | nothing : Prints [] []
  | last (diagnostic) : Prints [diagnostic] diagnostic.print
  | line (diagnostic) {rest output} : Prints rest output →
      Prints (diagnostic :: rest) (diagnostic.print ++ '\n' :: output)
  | blank {rest output} : Prints rest output → Prints rest ('\n' :: output)

/-- The words that name the network or a timeout. -/
def hasWording (value : Text) : Bool := matchesAny (infrastructureWords.map Regex.each) value

/-- The numbers that name a failure of a server. -/
def serverStatuses : List ℕ := [500, 502, 503, 504]

/-- A number of the position, or one that stands by itself in the texts, names such a failure. -/
def namesServerStatus (diagnostic : TypeScriptDiagnostic) : Bool :=
  serverStatusPattern.test isWordChar diagnostic.path || serverStatuses.contains diagnostic.line ||
    serverStatuses.contains diagnostic.column ||
    serverStatusPattern.test isWordChar diagnostic.message

section Pieces
variable {r : Regex Char} {accepts : List (Char → Bool)}

/-- The characters between the parts of a diagnostic. -/
def separators : List Char := ['(', ',', ')', ':', '\n']

theorem separators_noWord : ∀ c ∈ separators, isWordChar c = false :=
  List.forall_iff_forall_mem.mp (by decide)

theorem each_avoids {c : Char} (h : ∀ p ∈ accepts, p c = false) : (Regex.each accepts).Avoids c := by
  induction accepts with
  | nil => trivial
  | cons p accepts ih =>
    exact ⟨h p List.mem_cons_self, ih fun q hq => h q (List.mem_cons_of_mem p hq)⟩

theorem words_avoid : ∀ accepts ∈ infrastructureWords, ∀ c ∈ separators, ∀ p ∈ accepts,
    p c = false := by
  have h : (infrastructureWords.all fun accepts => separators.all fun c =>
    accepts.all fun p => !p c) = true := by decide
  simpa only [List.all_eq_true, Bool.not_eq_true'] using h

theorem serverStatus_avoids : ∀ c ∈ ' ' :: separators, serverStatusPattern.Avoids c := by
  have hchars : ∀ c ∈ ' ' :: separators, (c == '5') = false ∧ (c == '0') = false ∧
      (c == '0' || c == '2' || c == '3' || c == '4') = false :=
    List.forall_iff_forall_mem.mp (by decide)
  intro c hc
  obtain ⟨h5, h0, hlast⟩ := hchars c hc
  exact ⟨trivial, h5, h0, hlast, trivial⟩

/-- The parts of a diagnostic are matched by themselves. -/
theorem test_print (h : ∀ c ∈ separators, r.Avoids c) (diagnostic : TypeScriptDiagnostic) :
    r.test isWordChar diagnostic.print =
      (r.test isWordChar diagnostic.path ||
        (r.test isWordChar (Nat.toDigits 10 diagnostic.line) ||
          (r.test isWordChar (Nat.toDigits 10 diagnostic.column) ||
            (r.test isWordChar [] ||
              (r.test isWordChar (text " error TS" ++ Nat.toDigits 10 diagnostic.number) ||
                r.test isWordChar (' ' :: diagnostic.message)))))) := by
  have hsplit : ∀ c ∈ separators, ∀ before after, r.test isWordChar (before ++ c :: after) =
      (r.test isWordChar before || r.test isWordChar after) :=
    fun c hc => Regex.test_separated (separators_noWord c hc) (h c hc)
  unfold TypeScriptDiagnostic.print
  rw [hsplit '(' (by decide), hsplit ',' (by decide), hsplit ')' (by decide),
    hsplit ':' (by decide), hsplit ':' (by decide)]

theorem test_prints (h : ∀ c ∈ separators, r.Avoids c) (hempty : r.test isWordChar [] = false)
    {diagnostics : List TypeScriptDiagnostic} {output : Text} (hprints : Prints diagnostics output) :
    r.test isWordChar output =
      diagnostics.any fun diagnostic => r.test isWordChar diagnostic.print := by
  have hline : '\n' ∈ separators := by decide
  have hsplit := fun before after =>
    Regex.test_separated (separators_noWord _ hline) (h _ hline) before after
  induction hprints with
  | nothing => exact hempty
  | last diagnostic => simp
  | line diagnostic _ ih => rw [hsplit, ih, List.any_cons]
  | blank _ ih =>
    rw [← ih, ← List.nil_append ('\n' :: _), hsplit, hempty, Bool.false_or]

theorem digit_of_toDigits {n : ℕ} {c : Char} (h : c ∈ Nat.toDigits 10 n) :
    c ∈ "0123456789".toList := by
  have hdigit := Nat.isDigit_of_mem_toDigits (by decide) (by decide) h
  have hbounds : 48 ≤ c.toNat ∧ c.toNat ≤ 57 := by
    rw [Char.isDigit, Bool.and_eq_true, decide_eq_true_eq, decide_eq_true_eq] at hdigit
    exact hdigit
  rw [← Char.ofNat_toNat c]
  generalize c.toNat = n at hbounds
  obtain ⟨hlow, hhigh⟩ := hbounds
  interval_cases n <;> decide

/-- Every word has a letter that is not in the fixed part of a diagnostic or its numbers. -/
theorem word_needs_letter : ∀ accepts ∈ infrastructureWords, ∃ p ∈ accepts,
    ∀ c ∈ text " error TS" ++ "0123456789".toList, p c = false := by
  have h : (infrastructureWords.all fun accepts => accepts.any fun p =>
    (text " error TS" ++ "0123456789".toList).all fun c => !p c) = true := by decide
  simpa only [List.all_eq_true, List.any_eq_true, Bool.not_eq_true'] using h

theorem words_start : ∀ accepts ∈ infrastructureWords, ∀ first, accepts.head? = some first →
    first ' ' = false := by
  have hhead : ∀ accepts ∈ infrastructureWords, accepts.head?.map (· ' ') = some false := by decide
  intro accepts h first hfirst
  simpa [hfirst] using hhead accepts h

theorem word_in_print {accepts : List (Char → Bool)} (h : accepts ∈ infrastructureWords)
    (diagnostic : TypeScriptDiagnostic) :
    (Regex.each accepts).test isWordChar diagnostic.print =
      ((Regex.each accepts).test isWordChar diagnostic.path ||
        (Regex.each accepts).test isWordChar diagnostic.message) := by
  obtain ⟨p, hp, hletters⟩ := word_needs_letter accepts h
  have hdigits : ∀ n, (Regex.each accepts).test isWordChar (Nat.toDigits 10 n) = false := fun n =>
    Regex.test_each_eq_false hp fun c hc =>
      hletters c (List.mem_append_right _ (digit_of_toDigits hc))
  have hfixed : (Regex.each accepts).test isWordChar
      (text " error TS" ++ Nat.toDigits 10 diagnostic.number) = false := by
    refine Regex.test_each_eq_false hp fun c hc => hletters c ?_
    rcases List.mem_append.mp hc with hc | hc
    · exact List.mem_append_left _ hc
    · exact List.mem_append_right _ (digit_of_toDigits hc)
  have hempty : (Regex.each accepts).test isWordChar [] = false :=
    Regex.test_each_eq_false hp fun c hc => (nomatch hc)
  have hmessage : (Regex.each accepts).test isWordChar (' ' :: diagnostic.message) =
      (Regex.each accepts).test isWordChar diagnostic.message := by
    refine Regex.test_cons (by decide) (fun text => ?_) _
    cases accepts with
    | nil => cases hp
    | cons first rest =>
      have hfirst : first ' ' = false := words_start _ h first rfl
      change (if first ' ' then _ else _ : List (Regex.Position Char)).flatMap _ = []
      rw [hfirst]
      rfl
  rw [test_print fun c hc => each_avoids (words_avoid accepts h c hc), hdigits, hdigits, hempty,
    hfixed, hmessage, Bool.false_or, Bool.false_or, Bool.false_or, Bool.false_or]

/-- Inside a word the number of a status does not stand by itself. -/
theorem serverStatus_inside {value : Text} (h : ∀ c ∈ value, isWordChar c = true) :
    serverStatusPattern.testFrom isWordChar true value = false := by
  induction value with
  | nil => decide
  | cons c value ih =>
    have hc := h c List.mem_cons_self
    have hrun : serverStatusPattern.run isWordChar (true, c :: value) = [] := by
      change (if true != isWordChar c then _ else _ : List (Regex.Position Char)).flatMap _ = []
      rw [hc]
      rfl
    rw [Regex.testFrom, hrun, hc, ih fun d hd => h d (List.mem_cons_of_mem c hd)]
    rfl

/-- At the start of a word there has to be the number, and no word character after it. -/
theorem run_serverStatus {c : Char} {rest : Text} (hc : isWordChar c = true) :
    (!(serverStatusPattern.run isWordChar (false, c :: rest)).isEmpty) =
      match rest with
      | d :: e :: after =>
        c == '5' && (d == '0' && ((e == '0' || e == '2' || e == '3' || e == '4') &&
          (isWordChar e != Regex.nextIsWord isWordChar after)))
      | _ => false := by
  have hboundary : (false != Regex.nextIsWord isWordChar (c :: rest)) = true := by
    rw [Regex.nextIsWord, hc]
    rfl
  rw [serverStatusPattern, Regex.run_boundary_then, if_pos hboundary, Regex.run_one_then]
  match rest with
  | [] =>
    rw [Regex.run_one_then_nil]
    split_ifs <;> rfl
  | [d] =>
    rw [Regex.run_one_then, Regex.run_one_then_nil]
    split_ifs <;> rfl
  | d :: e :: after =>
    have hif : ∀ (b : Bool) (positions : List (Regex.Position Char)),
        (!(if b = true then positions else []).isEmpty) = (b && !positions.isEmpty) := by
      intro b positions
      cases b <;> rfl
    rw [Regex.run_one_then, Regex.run_one_then, Regex.run, hif, hif, hif, hif, List.isEmpty_cons,
      Bool.not_false, Bool.and_true]

/-- A word is matched where it is the number of a status. -/
theorem serverStatus_word {value : Text} (h : ∀ c ∈ value, isWordChar c = true) :
    serverStatusPattern.test isWordChar value = true ↔
      value ∈ serverStatuses.map (Nat.toDigits 10) := by
  cases value with
  | nil => decide
  | cons c value =>
    have hc := h c List.mem_cons_self
    have hinside := serverStatus_inside fun d hd => h d (List.mem_cons_of_mem c hd)
    have hnumbers : serverStatuses.map (Nat.toDigits 10) =
        [['5', '0', '0'], ['5', '0', '2'], ['5', '0', '3'], ['5', '0', '4']] := by decide
    rw [Regex.test, Regex.testFrom, hc, hinside, Bool.or_false, hnumbers]
    rw [run_serverStatus hc]
    cases value with
    | nil => simp
    | cons d value =>
      cases value with
      | nil => simp
      | cons e value =>
        have he := h e (by simp)
        cases value with
        | nil => simp [he, Regex.nextIsWord, or_assoc, and_or_left]
        | cons f rest => simp [he, h f (by simp), Regex.nextIsWord]

theorem isWordChar_of_digit : ∀ c ∈ "0123456789".toList, isWordChar c = true :=
  List.all_eq_true.mp (by decide)

theorem serverStatus_number (n : ℕ) :
    serverStatusPattern.test isWordChar (Nat.toDigits 10 n) = serverStatuses.contains n := by
  have hinjective : Function.Injective (Nat.toDigits 10) := by
    intro m n h
    rw [← @Nat.ofDigitChars_ten_toDigits m, h, Nat.ofDigitChars_ten_toDigits]
  rw [Bool.eq_iff_iff, serverStatus_word fun c hc => isWordChar_of_digit c (digit_of_toDigits hc),
    List.mem_map_of_injective hinjective, List.contains_iff_mem]

theorem serverStatus_empty : serverStatusPattern.test isWordChar [] = false := by decide

/-- The number of the error follows the letters `TS`. -/
theorem serverStatus_errorNumber (n : ℕ) :
    serverStatusPattern.test isWordChar (text " error TS" ++ Nat.toDigits 10 n) = false := by
  have hsplit : ∀ before after, serverStatusPattern.test isWordChar (before ++ ' ' :: after) =
      (serverStatusPattern.test isWordChar before || serverStatusPattern.test isWordChar after) :=
    Regex.test_separated (by decide) (serverStatus_avoids ' ' (by decide))
  have hparts : text " error TS" ++ Nat.toDigits 10 n =
      [] ++ ' ' :: (text "error" ++ ' ' :: (text "TS" ++ Nat.toDigits 10 n)) := rfl
  have hword : ∀ c ∈ text "TS" ++ Nat.toDigits 10 n, isWordChar c = true := by
    intro c hc
    rcases List.mem_append.mp hc with hc | hc
    · have hletters : ∀ c ∈ text "TS", isWordChar c = true :=
        List.all_eq_true.mp (by decide)
      exact hletters c hc
    · exact isWordChar_of_digit c (digit_of_toDigits hc)
  have hnumber : serverStatusPattern.test isWordChar (text "TS" ++ Nat.toDigits 10 n) = false := by
    rw [← Bool.not_eq_true, serverStatus_word hword]
    intro hmem
    obtain ⟨m, hm, heq⟩ := List.mem_map.mp hmem
    have hhead : ∀ m ∈ serverStatuses, (Nat.toDigits 10 m).head? = some '5' := by decide
    have hfirst := hhead m hm
    rw [heq] at hfirst
    cases hfirst
  rw [hparts, hsplit, hsplit, hnumber]
  decide

theorem serverStatus_in_print (diagnostic : TypeScriptDiagnostic) :
    serverStatusPattern.test isWordChar diagnostic.print = namesServerStatus diagnostic := by
  have hmessage : serverStatusPattern.test isWordChar (' ' :: diagnostic.message) =
      serverStatusPattern.test isWordChar diagnostic.message := by
    rw [← List.nil_append (' ' :: _), Regex.test_separated (by decide)
      (serverStatus_avoids ' ' (by decide)), serverStatus_empty, Bool.false_or]
  rw [test_print fun c hc => serverStatus_avoids c (List.mem_cons_of_mem _ hc),
    serverStatus_number, serverStatus_number, serverStatus_empty, serverStatus_errorNumber, hmessage,
    namesServerStatus, Bool.false_or, Bool.false_or, Bool.or_assoc, Bool.or_assoc]

end Pieces

section Claim
variable {diagnostic : FailureDiagnostic} {printed printed' : List TypeScriptDiagnostic}

theorem test_output {r : Regex Char} (h : ∀ c ∈ separators, r.Avoids c)
    (hempty : r.test isWordChar [] = false) (hout : Prints printed diagnostic.stdout)
    (herr : Prints printed' diagnostic.stderr) :
    r.test isWordChar (diagnostic.stdout ++ '\n' :: diagnostic.stderr) =
      (printed ++ printed').any fun d => r.test isWordChar d.print := by
  have hline : '\n' ∈ separators := by decide
  rw [Regex.test_separated (separators_noWord _ hline) (h _ hline), test_prints h hempty hout,
    test_prints h hempty herr, List.any_append]

/-- Diagnostics of the code without wording about the network or a timeout are laid to the code
exactly when nothing in them can be taken for the status of a failing server. -/
theorem classified_as_code_iff
    (hphase : diagnostic.phase = .typeCheck ∨ diagnostic.phase = .build)
    (hexit : diagnostic.exitCode ≠ some 124) (hout : Prints printed diagnostic.stdout)
    (herr : Prints printed' diagnostic.stderr)
    (hwording : ∀ d ∈ printed ++ printed', hasWording d.path = false ∧ hasWording d.message = false) :
    classifyValidationFailure diagnostic = .codeError ↔
      ∀ d ∈ printed ++ printed', namesServerStatus d = false := by
  have hwords : ∀ accepts ∈ infrastructureWords, (Regex.each accepts).test isWordChar
      (diagnostic.stdout ++ '\n' :: diagnostic.stderr) = false := by
    intro accepts hmem
    obtain ⟨p, hp, -⟩ := word_needs_letter accepts hmem
    have hempty : (Regex.each accepts).test isWordChar [] = false :=
      Regex.test_each_eq_false hp fun c hc => (nomatch hc)
    rw [test_output (fun c hc => each_avoids (words_avoid accepts hmem c hc)) hempty hout herr,
      List.any_eq_false]
    intro d hd
    obtain ⟨hpath, hmessage⟩ := hwording d hd
    have hpart : ∀ value, hasWording value = false →
        (Regex.each accepts).test isWordChar value = false := by
      intro value hvalue
      rw [hasWording, matchesAny, List.any_map, List.any_eq_false] at hvalue
      exact Bool.eq_false_iff.mpr (hvalue accepts hmem)
    rw [word_in_print hmem, hpart _ hpath, hpart _ hmessage]
    decide
  have hstatus : serverStatusPattern.test isWordChar
      (diagnostic.stdout ++ '\n' :: diagnostic.stderr) =
        (printed ++ printed').any namesServerStatus := by
    rw [test_output (fun c hc => serverStatus_avoids c (List.mem_cons_of_mem _ hc))
      serverStatus_empty hout herr]
    exact congrArg _ (funext serverStatus_in_print)
  have hmatches : matchesAny infrastructurePatterns
      (diagnostic.stdout ++ '\n' :: diagnostic.stderr) =
        (printed ++ printed').any namesServerStatus := by
    rw [matchesAny, infrastructurePatterns, List.any_append, List.any_map, List.any_cons,
      List.any_nil, Bool.or_false, hstatus]
    have hnone : infrastructureWords.any ((fun pattern : Regex Char => pattern.test isWordChar
        (diagnostic.stdout ++ '\n' :: diagnostic.stderr)) ∘ Regex.each) = false := by
      rw [List.any_eq_false]
      intro accepts hmem
      rw [Function.comp_apply, hwords accepts hmem]
      decide
    rw [hnone, Bool.false_or]
  have hcode : diagnostic.phase ≠ .dependencies := by
    rcases hphase with h | h <;> rw [h] <;> decide
  have hclassify : classifyValidationFailure diagnostic =
      if (printed ++ printed').any namesServerStatus = true then .infraError else .codeError := by
    unfold classifyValidationFailure
    simp only [hexit, hmatches, hcode, decide_false, Bool.false_or, if_false]
  rw [hclassify]
  constructor
  · intro h d hd
    by_contra hnames
    rw [if_pos (List.any_eq_true.mpr ⟨d, hd, by simpa using hnames⟩)] at h
    cases h
  · intro h
    refine if_neg ?_
    rw [Bool.not_eq_true, List.any_eq_false]
    intro d hd
    rw [h d hd]
    decide

private def missingName (line : ℕ) : TypeScriptDiagnostic :=
  ⟨text "src/App.tsx", line, 7, 2304, text "Cannot find name 'Button'."⟩

private def typeCheckFailure (line : ℕ) : FailureDiagnostic :=
  ⟨.typeCheck, some 2, (missingName line).print ++ ['\n'], []⟩

private theorem prints_typeCheckFailure (line : ℕ) :
    Prints [missingName line] (typeCheckFailure line).stdout :=
  .line _ .nothing

private theorem noWording_missingName (line : ℕ) :
    hasWording (missingName line).path = false ∧ hasWording (missingName line).message = false := by
  refine ⟨?_, ?_⟩ <;> simp only [missingName] <;> decide

theorem line_42_classified : classifyValidationFailure (typeCheckFailure 42) = .codeError := by
  refine (classified_as_code_iff (.inl rfl) (by decide) (prints_typeCheckFailure 42) .nothing
    fun d hd => ?_).mpr fun d hd => ?_
  · rw [List.mem_singleton.mp hd]
    exact noWording_missingName 42
  · rw [List.mem_singleton.mp hd]
    decide

/-- The same diagnostic in line 503 is laid to the infrastructure. -/
theorem line_503_misclassified : ¬∀ (diagnostic : FailureDiagnostic)
    (printed printed' : List TypeScriptDiagnostic),
    (diagnostic.phase = .typeCheck ∨ diagnostic.phase = .build) →
    diagnostic.exitCode ≠ some 124 → Prints printed diagnostic.stdout →
    Prints printed' diagnostic.stderr →
    (∀ d ∈ printed ++ printed', hasWording d.path = false ∧ hasWording d.message = false) →
    classifyValidationFailure diagnostic = .codeError := by
  intro h
  have hcode := h (typeCheckFailure 503) [missingName 503] [] (.inl rfl) (by decide)
    (prints_typeCheckFailure 503) .nothing fun d hd => by
      rw [List.mem_singleton.mp hd]
      exact noWording_missingName 503
  have hinfra : classifyValidationFailure (typeCheckFailure 503) = .infraError := by decide
  rw [hinfra] at hcode
  cases hcode

end Claim


end AppBuilder.Agent.Validation
