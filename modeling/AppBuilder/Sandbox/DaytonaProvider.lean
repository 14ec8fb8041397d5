import AppBuilder.Encoding.CodePoints
import AppBuilder.Encoding.Shell
import AppBuilder.Encoding.Utf8Cut
import AppBuilder.Sandbox.Path

/-! The commands of `sandbox/providers/DaytonaProvider.ts`. What is quoted or cut is a sequence of
UTF-16 code units; surrogates need not be in pairs. -/
namespace AppBuilder.Sandbox.Daytona
open Encoding

def WORKSPACE_ROOT : String := "/workspace"

structure SandboxCommand where
  executable : List ℕ
  args : List (List ℕ)
  cwd : String
  env : List (String × String)
  timeoutMs : ℕ
  maxOutputBytes : ℕ

structure SandboxCommandResult where
  exitCode : Option ℤ
  stdout : List ℕ
  stderr : List ℕ
  timedOut : Bool
  outputTruncated : Bool
  deriving DecidableEq

/-- `value.replaceAll("'", "'\"'\"'")` -/
def replaceQuotes (value : List ℕ) : List ℕ :=
  value.flatMap fun u => if u = Shell.singleQuote then Shell.codes "'\"'\"'" else [u]

def quoteShellToken (value : List ℕ) : List ℕ :=
  Shell.singleQuote :: (replaceQuotes value ++ [Shell.singleQuote])

def commandLine (command : SandboxCommand) : List ℕ :=
  [Shell.space].intercalate ((command.executable :: command.args).map quoteShellToken)

/-- `Buffer.from(value)` -/
def bufferFrom (value : List ℕ) : List ℕ := Utf8.encode (Utf16.wellFormed value)

structure Truncated where
  value : List ℕ
  truncated : Bool
  deriving DecidableEq

def truncateUtf8 (value : List ℕ) (limit : ℕ) : Truncated :=
  let bytes := bufferFrom value
  if bytes.length ≤ limit then ⟨value, false⟩
  else ⟨Utf16.encode (Utf8.decode (bytes.take limit)), true⟩

/-- `Math.max(1, Math.ceil(milliseconds / 1_000))` -/
def timeoutSeconds (milliseconds : ℕ) : ℕ := max 1 ((milliseconds + 999) / 1000)

def isPositiveSafeInteger (n : ℕ) : Bool := 0 < n && n < 2 ^ 53

def commandCwdAllowed (cwd : String) : Except SandboxError Bool :=
  if startsWith cwd.toList (text (WORKSPACE_ROOT ++ "/")) then
    match normalizeSandboxRelativePath
        (String.ofList (cwd.toList.drop (WORKSPACE_ROOT ++ "/").length)) with
    | .error error => .error error
    | .ok relativeCwd => .ok (cwd == WORKSPACE_ROOT ++ "/" ++ relativeCwd)
  else .ok (cwd == WORKSPACE_ROOT)

/-- How `executeCommand` ends. -/
inductive Execution where
  | finished (exitCode : ℤ) (result : Option (List ℕ))
  | commandTimeout
  | failed
  deriving DecidableEq

/-- A command that is not aborted. `executeCommand` gives its line to the shell. -/
def runCommand (executeCommand : List ℕ → String → List (String × String) → ℕ → Execution)
    (command : SandboxCommand) : Except SandboxError SandboxCommandResult :=
  match commandCwdAllowed command.cwd with
  | .error error => .error error
  | .ok allowed =>
    if command.executable.length = 0 || !allowed || !isPositiveSafeInteger command.timeoutMs ||
        !isPositiveSafeInteger command.maxOutputBytes then
      deniedPath "Sandbox command violates the Daytona execution policy"
    else
      match executeCommand (commandLine command) command.cwd command.env
          (timeoutSeconds command.timeoutMs) with
      | .finished exitCode result =>
        let stdout := truncateUtf8 (result.getD []) command.maxOutputBytes
        .ok ⟨some exitCode, stdout.value, [], false, stdout.truncated⟩
      | .commandTimeout => .ok ⟨none, [], [], true, false⟩
      | .failed =>
        .error
          { code := .providerUnavailable
            message := "Daytona command execution failed"
            retryable := true }

section Words

variable {value part : List ℕ}

theorem replaceQuotes_cons (u : ℕ) (value : List ℕ) : replaceQuotes (u :: value) =
    (if u = Shell.singleQuote then Shell.codes "'\"'\"'" else [u]) ++ replaceQuotes value :=
  List.flatMap_cons

/-- The part without quotes that has been taken, and the rest of the token. -/
theorem reads_replaced (value : List ℕ) {part : List ℕ} (hpart : Shell.singleQuote ∉ part) :
    Shell.Reads (Shell.singleQuote :: (part ++ (replaceQuotes value ++ [Shell.singleQuote])))
      (Shell.quotedWord (part ++ value)) := by
  induction value generalizing part with
  | nil =>
    rw [List.append_nil]
    exact Shell.reads_singleQuoted hpart
  | cons u value ih =>
    rw [replaceQuotes_cons]
    by_cases hu : u = Shell.singleQuote
    · -- the quote ends the part, stands in double quotes, and the rest is quoted again
      have hquote := @Shell.reads_doubleQuoted [Shell.singleQuote] (by decide)
      have hrest := @ih [] List.not_mem_nil
      have hall := ((Shell.reads_singleQuoted hpart).append hquote).append hrest
      rw [if_pos hu, hu]
      have hline : Shell.singleQuote :: (part ++ (Shell.codes "'\"'\"'" ++ replaceQuotes value ++
          [Shell.singleQuote])) = Shell.singleQuote :: (part ++ [Shell.singleQuote]) ++
            Shell.doubleQuote :: ([Shell.singleQuote] ++ [Shell.doubleQuote]) ++
              Shell.singleQuote :: ([] ++ (replaceQuotes value ++ [Shell.singleQuote])) := by
        have hcodes : Shell.codes "'\"'\"'" = [Shell.singleQuote, Shell.doubleQuote,
          Shell.singleQuote, Shell.doubleQuote, Shell.singleQuote] := by decide
        rw [hcodes]
        simp
      have hword : Shell.quotedWord (part ++ Shell.singleQuote :: value) =
          Shell.quotedWord part ++ Shell.quotedWord [Shell.singleQuote] ++
            Shell.quotedWord ([] ++ value) := by
        simp [Shell.quotedWord]
      rw [hline, hword]
      exact hall
    · have hmore : Shell.singleQuote ∉ part ++ [u] := by
        rw [List.mem_append, List.mem_singleton, not_or]
        exact ⟨hpart, fun he => hu he.symm⟩
      have hrest := ih hmore
      rw [if_neg hu]
      rw [List.append_assoc, List.append_assoc] at hrest
      rw [List.append_assoc]
      exact hrest

/-- A quoted token is one word, the value itself. -/
theorem reads_quoteShellToken (value : List ℕ) :
    Shell.Reads (quoteShellToken value) (Shell.quotedWord value) :=
  @reads_replaced value [] List.not_mem_nil

/-- The shell reads a command line as the executable and its arguments, all quoted. -/
theorem commandLine_read (command : SandboxCommand) :
    ∃ words, Shell.split (commandLine command) = .ok words ∧
      words.map Shell.wordValue = command.executable :: command.args ∧
      ∀ word ∈ words, ∀ letter ∈ word, letter.quoted = true := by
  refine ⟨_, Shell.split_words reads_quoteShellToken command.executable command.args, ?_, ?_⟩
  · rw [List.map_map]
    conv_rhs => rw [← List.map_id (command.executable :: command.args)]
    exact List.map_congr_left fun value _ => Shell.wordValue_quotedWord value
  · intro word hword letter hletter
    obtain ⟨value, -, rfl⟩ := List.mem_map.mp hword
    exact Shell.quoted_of_mem hletter

end Words

section Limit

variable {value : List ℕ} {limit : ℕ} {kept : List ℕ}

/-- A start of the string in code points, within the limit, which says whether it is all. -/
structure Keeps (value : List ℕ) (limit : ℕ) (result : Truncated) : Prop where
  start : Utf16.points result.value <+: Utf16.points value
  bounded : (bufferFrom result.value).length ≤ limit
  reported : result.truncated = true ↔ result.value ≠ value

/-- The limit falls behind some code points, none of which is a surrogate by itself. -/
def Boundary (value : List ℕ) (limit : ℕ) : Prop :=
  ∃ kept, kept <+: Utf16.points value ∧ (∀ point ∈ kept, point.isValidChar) ∧
    (Utf8.encode (kept.map Utf16.scalar)).length = limit

theorem keeps_whole (h : (bufferFrom value).length ≤ limit) :
    Keeps value limit (truncateUtf8 value limit) := by
  have hresult : truncateUtf8 value limit = ⟨value, false⟩ := if_pos h
  rw [hresult]
  exact ⟨List.prefix_rfl, h, fun hfalse => (nomatch hfalse), fun hne => absurd rfl hne⟩

theorem keeps_boundary (hlong : ¬ (bufferFrom value).length ≤ limit) (h : Boundary value limit) :
    Keeps value limit (truncateUtf8 value limit) := by
  obtain ⟨kept, ⟨more, hpoints⟩, hvalid, hlength⟩ := h
  have htext : Utf16.wellFormed value = kept.map Utf16.scalar ++ more.map Utf16.scalar := by
    rw [Utf16.wellFormed, ← hpoints, List.map_append]
  have hresult : truncateUtf8 value limit = ⟨Utf16.encode (kept.map Utf16.scalar), true⟩ := by
    rw [truncateUtf8, if_neg hlong, bufferFrom, htext, Utf8.decode_take_boundary hlength]
  have hkept : Utf16.points (Utf16.encode (kept.map Utf16.scalar)) = kept := by
    rw [Utf16.points_encode, Utf16.map_toNat_scalar hvalid]
  rw [hresult]
  refine ⟨?_, ?_, fun _ hsame => ?_, fun _ => rfl⟩
  · rw [hkept, ← hpoints]
    exact List.prefix_append kept more
  · rw [bufferFrom, Utf16.wellFormed_encode, hlength]
  · refine hlong ?_
    dsimp only at hsame
    rw [← hsame, bufferFrom, Utf16.wellFormed_encode, hlength]

theorem boundary_of_keeps (hlong : ¬ (bufferFrom value).length ≤ limit)
    (h : Keeps value limit (truncateUtf8 value limit)) : Boundary value limit := by
  obtain ⟨chars, c, rest, htext, hle, hless⟩ := Utf8.exists_cut (Nat.not_le.mp hlong)
  obtain ⟨before, after, hpoints, hbefore, hafter⟩ := List.map_eq_append_iff.mp htext
  have hvalid : ∀ point ∈ chars.map Char.toNat, point.isValidChar := by
    intro point hpoint
    obtain ⟨d, -, rfl⟩ := List.mem_map.mp hpoint
    exact d.valid
  have hlengths : before.length = (chars.map Char.toNat).length := by
    rw [← hbefore, List.length_map, List.length_map]
  have hvalue : (truncateUtf8 value limit).value =
      Utf16.encode (Utf8.decode ((bufferFrom value).take limit)) := by
    rw [truncateUtf8, if_neg hlong]
  have hstart := h.start
  have hbounded := h.bounded
  rw [hvalue, Utf16.points_encode, hpoints] at hstart
  rw [hvalue, bufferFrom, Utf16.wellFormed_encode] at hbounded
  rw [bufferFrom, htext] at hstart hbounded
  rcases hle.lt_or_eq with hinside | hboundary
  · -- the replacement character would have to be the character that is cut, which does not fit
    rw [Utf8.decode_take_inside hinside hless] at hstart hbounded
    rw [List.map_append] at hstart
    obtain ⟨tail, htail⟩ := hstart
    rw [List.append_assoc] at htail
    obtain ⟨-, hrest⟩ := List.append_inj htail hlengths.symm
    rw [← hrest, List.map_append, List.map_singleton, List.map_singleton,
      Utf16.scalar_toNat] at hafter
    have hc : c = Utf8.replacement := (List.cons.inj hafter).1.symm
    rw [Utf8.bytes_append, List.length_append] at hbounded
    have hone : Utf8.encode [Utf8.replacement] = Utf8.encodeChar c := by
      rw [hc]
      decide
    rw [hone] at hbounded
    omega
  · rw [Utf8.decode_take_boundary hboundary] at hstart
    obtain ⟨tail, htail⟩ := hstart
    obtain ⟨hsame, -⟩ := List.append_inj htail hlengths.symm
    refine ⟨before, ⟨after, hpoints.symm⟩, ?_, ?_⟩
    · rw [← hsame]
      exact hvalid
    · rw [hbefore, hboundary]

/-- The output is cut as it should be exactly when it fits, or the limit falls between two
characters and no surrogate before it stands alone. -/
theorem truncateUtf8_iff (value : List ℕ) (limit : ℕ) :
    Keeps value limit (truncateUtf8 value limit) ↔
      (bufferFrom value).length ≤ limit ∨ Boundary value limit := by
  by_cases hlong : (bufferFrom value).length ≤ limit
  · exact iff_of_true (keeps_whole hlong) (.inl hlong)
  · constructor
    · exact fun h => .inr (boundary_of_keeps hlong h)
    · rintro (hfits | hboundary)
      · exact absurd hfits hlong
      · exact keeps_boundary hlong hboundary

/-- Half of an `é`. -/
theorem accent_replaced : ¬ ∀ (value : List ℕ) (limit : ℕ), 0 < limit →
    Keeps value limit (truncateUtf8 value limit) := by
  intro h
  have hbounded := (h [0xE9] 1 (by decide)).bounded
  revert hbounded
  decide

end Limit

end AppBuilder.Sandbox.Daytona
