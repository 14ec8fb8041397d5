import AppBuilder.Agent.Types
import AppBuilder.Encoding.Path
import AppBuilder.Encoding.Properties
import AppBuilder.Encoding.Regex
import Mathlib.Data.List.Infix

/-! `agent/styling/buildEvidence.ts` and the build check of `agent/styling/tailwindAdapter.ts`:
what is read of the emitted CSS, and what it is taken to prove. Contents are the UTF-16 code units
that `slice` and `length` count. -/
namespace AppBuilder.Agent.Styling
open Encoding

abbrev Units : Type := List ℕ

def unitsOf (s : String) : Units := Utf16.encode s.toList

/-- `\s` -/
def isSpaceUnit (u : ℕ) : Bool :=
  (9 ≤ u && u ≤ 13) || u == 32 || u == 160 || u == 0x1680 || (0x2000 ≤ u && u ≤ 0x200A) ||
    u == 0x2028 || u == 0x2029 || u == 0x202F || u == 0x205F || u == 0x3000 || u == 0xFEFF

def isWordUnit (u : ℕ) : Bool :=
  (48 ≤ u && u ≤ 57) || (65 ≤ u && u ≤ 90) || u == 95 || (97 ≤ u && u ≤ 122)

def spelled (s : String) : Regex ℕ := Regex.literal (unitsOf s)

def spelledAny (words : List String) : Regex ℕ := Regex.anyOf (words.map spelled)

/-- `[chars]` -/
def oneOf (chars : String) : Regex ℕ := .one (unitsOf chars).contains

/-- `/@tailwind\s+(?:base|components|utilities)\s*;/` -/
def directivePattern : Regex ℕ :=
  .seq (spelled "@tailwind") (.seq (Regex.plus (.one isSpaceUnit))
    (.seq (spelledAny ["base", "components", "utilities"])
      (.seq (.star (.one isSpaceUnit)) (spelled ";"))))

/-- `/className=["']([^"']+)["']/g` -/
def classNamePattern : Regex ℕ :=
  .seq (spelled "className=") (.seq (oneOf "\"'")
    (.seq (Regex.plus (.one fun u => !(unitsOf "\"'").contains u)) (oneOf "\"'")))

/-- `tailwindUtilityPattern` without its `^` -/
def tailwindUtilityPattern : Regex ℕ :=
  .seq (.star (.seq (Regex.plus (.one fun u => (97 ≤ u && u ≤ 122) || u == 45)) (spelled ":")))
    (.seq (Regex.anyOf
      [spelledAny ["bg", "text", "font", "border", "rounded", "shadow", "opacity", "flex", "grid",
          "block", "inline", "hidden", "items", "justify", "content", "self", "place", "gap"],
        .seq (spelled "space-") (oneOf "xy"),
        .seq (spelled "p") (Regex.optional (oneOf "trblxy")),
        .seq (spelled "m") (Regex.optional (oneOf "trblxy")),
        spelledAny ["w", "min-w", "max-w", "h", "min-h", "max-h", "top", "right", "bottom", "left",
          "inset", "z", "overflow", "object", "cursor", "select", "transition", "duration", "ease",
          "animate", "scale", "rotate"],
        .seq (spelled "translate-") (oneOf "xy"),
        spelled "origin"])
      (spelled "-"))

/-- `name.replace(/([!"#$%&'()*+,./:;<=>?@[\\\]^`{|}~])/g, '\\$1')` -/
def escapeCssClass (name : Units) : Units :=
  name.flatMap fun u =>
    if (unitsOf "!\"#$%&'()*+,./:;<=>?@[\\]^\x60\x7b|\x7d~").contains u then [92, u] else [u]

/-- `css.includes(part)` -/
def includesUnits (css part : Units) : Bool := css.tails.any part.isPrefixOf

/-- `value.split(/\s+/)`, with the piece so far and whether the last unit was a space. -/
def splitSpaces : Units → Bool → Units → List Units
  | piece, _, [] => [piece]
  | piece, afterSpace, u :: rest =>
    if isSpaceUnit u then
      if afterSpace then splitSpaces [] true rest else piece :: splitSpaces [] true rest
    else splitSpaces (piece ++ [u]) false rest

inductive StylingCapability where
  | plainCss
  | tailwind
  | cssModules
  | styledComponents
  deriving DecidableEq

inductive StylingIssueCode where
  | missingDependency
  | missingConfiguration
  | missingEntryImport
  | unexpandedDirective
  | missingBuildOutput
  | metadataConflict
  deriving DecidableEq

inductive StylingIssuePhase where
  | sourceContract
  | buildEvidence
  deriving DecidableEq

structure StylingIssue where
  capability : StylingCapability
  code : StylingIssueCode
  phase : StylingIssuePhase
  message : Units
  previewRecoverable : Bool
  deriving DecidableEq

structure CssAsset where
  path : Text
  content : Units
  deriving DecidableEq

/-- `contents.join('\n')` -/
def joinLines : List Units → Units
  | [] => []
  | [content] => content
  | content :: rest => content ++ 10 :: joinLines rest

def buildIssue (code : StylingIssueCode) (message : Units) : StylingIssue where
  capability := .tailwind
  code := code
  phase := .buildEvidence
  message := message
  previewRecoverable := false

/-- The utility classes of the source: `match[1]` is what stands between the quotes. -/
def usedClasses (files : List ProjectFile) : List Units :=
  files.flatMap fun file =>
    ((classNamePattern.matchAll isWordUnit (unitsOf file.content)).flatMap fun matched =>
      splitSpaces [] false ((matched.drop (unitsOf "className=\"").length).dropLast)).filter
        fun name => tailwindUtilityPattern.testStart isWordUnit name

def selectorOf (name : Units) : Units := 46 :: escapeCssClass name

def notEmitted (name : Units) : StylingIssue :=
  buildIssue .missingBuildOutput
    (unitsOf "Tailwind utility " ++ name ++ unitsOf " was not emitted")

def validateBuild (files : List ProjectFile) (cssAssets : List CssAsset) : List StylingIssue :=
  if cssAssets.length = 0 then
    [buildIssue .missingBuildOutput (unitsOf "The production build emitted no CSS assets")]
  else
    let css := joinLines (cssAssets.map (·.content))
    if directivePattern.test isWordUnit css then
      [buildIssue .unexpandedDirective
        (unitsOf "The emitted CSS still contains unexpanded Tailwind directives")]
    else
      let missing := (usedClasses files).find? fun name => !includesUnits css (selectorOf name)
      match missing with
      | some name => if name = [] then [] else [notEmitted name]
      | none => []

/-- What a directory holds, in the order in which it is read; `other` is neither a directory nor
a regular file. -/
inductive DistEntry where
  | file (name : Text) (content : Units)
  | directory (name : Text) (entries : List DistEntry)
  | other (name : Text)

mutual

def walkEntry (directory : Text) : DistEntry → List (Text × Units)
  | .directory name entries => walk (directory ++ '/' :: name) entries
  | .file name content =>
    if endsWith name (text ".css") then [(directory ++ '/' :: name, content)] else []
  | .other _ => []

/-- The paths of the CSS files below a directory, each with what it holds. -/
def walk (directory : Text) : List DistEntry → List (Text × Units)
  | [] => []
  | entry :: entries => walkEntry directory entry ++ walk directory entries

end

/-- The loop over the sorted paths. -/
def readAssets (workspacePath : Text) : ℤ → List (Text × Units) → List CssAsset
  | _, [] => []
  | remaining, (target, content) :: targets =>
    if remaining ≤ 0 then []
    else
      let content := content.take remaining.toNat
      ⟨target.drop (workspacePath.length + 1), content⟩ ::
        readAssets workspacePath (remaining - content.length) targets

/-- The CSS files below `dist`, in the order of their paths. There may be no `dist`. -/
def cssFiles (workspacePath : Text) (dist : Option (List DistEntry)) : List (Text × Units) :=
  sortByText (·.1) (walk (workspacePath ++ text "/dist") (dist.getD []))

def readCssBuildEvidence (workspacePath : Text) (dist : Option (List DistEntry)) (maxChars : ℤ) :
    List CssAsset :=
  readAssets workspacePath maxChars (cssFiles workspacePath dist)

/-- All CSS files with all of their contents. -/
def completeEvidence (workspacePath : Text) (dist : Option (List DistEntry)) : List CssAsset :=
  (cssFiles workspacePath dist).map fun target =>
    ⟨target.1.drop (workspacePath.length + 1), target.2⟩

/-! What is read is the start of the complete CSS. -/

/-- Where the characters of the limit are used up in the joined contents; the line ends between
the contents are not counted. -/
def cut : ℕ → List Units → ℕ
  | _, [] => 0
  | limit, [content] => min limit content.length
  | limit, content :: next :: rest =>
    if limit ≤ content.length then limit
    else content.length + 1 + cut (limit - content.length) (next :: rest)

theorem readAssets_ne_nil {workspacePath : Text} {remaining : ℤ} {targets : List (Text × Units)}
    (hremaining : 0 < remaining) (h : targets ≠ []) :
    readAssets workspacePath remaining targets ≠ [] := by
  obtain ⟨target, rest, rfl⟩ := List.exists_cons_of_ne_nil h
  rw [readAssets, if_neg (by omega)]
  exact List.cons_ne_nil _ _

theorem joinLines_readAssets (workspacePath : Text) {remaining : ℤ}
    (hremaining : 0 < remaining) (targets : List (Text × Units)) :
    joinLines ((readAssets workspacePath remaining targets).map (·.content)) =
      (joinLines (targets.map (·.2))).take (cut remaining.toNat (targets.map (·.2))) := by
  induction targets generalizing remaining with
  | nil => rfl
  | cons target targets ih =>
    obtain ⟨path, content⟩ := target
    rw [readAssets, if_neg (by omega)]
    cases targets with
    | nil => simp [readAssets, joinLines, cut]
    | cons next rest =>
      have hlength : (content.take remaining.toNat).length = min remaining.toNat content.length :=
        List.length_take
      dsimp only
      by_cases hfits : remaining.toNat ≤ content.length
      · have hnone : readAssets workspacePath
            (remaining - (content.take remaining.toNat).length) (next :: rest) = [] := by
          rw [readAssets, if_pos (by omega)]
        rw [hnone]
        simp only [List.map_cons, List.map_nil, joinLines, cut, if_pos hfits]
        rw [List.take_append_of_le_length hfits]
      · have hwhole : content.take remaining.toNat = content :=
          List.take_of_length_le (by omega)
        rw [hwhole]
        have hpositive : 0 < remaining - content.length := by omega
        have hmore := ih hpositive
        have hleft : (remaining - content.length).toNat = remaining.toNat - content.length := by
          omega
        obtain ⟨first, others, hread⟩ := List.exists_cons_of_ne_nil
          (@readAssets_ne_nil workspacePath _ _ hpositive (List.cons_ne_nil next rest))
        rw [hleft] at hmore
        simp only [List.map_cons, joinLines, cut, if_neg hfits] at hmore ⊢
        rw [hread] at hmore ⊢
        simp only [List.map_cons, joinLines] at hmore ⊢
        rw [hmore, List.take_append, Nat.add_assoc, Nat.add_sub_cancel_left, Nat.add_comm 1,
          List.take_succ_cons, List.take_of_length_le (Nat.le_add_right _ _)]

/-- Where the CSS that is judged is not empty, the verdict depends on what it contains. -/
def verdictOn (files : List ProjectFile) (css : Units) : List StylingIssue :=
  if directivePattern.test isWordUnit css then
    [buildIssue .unexpandedDirective
      (unitsOf "The emitted CSS still contains unexpanded Tailwind directives")]
  else match (usedClasses files).find? fun name => !includesUnits css (selectorOf name) with
    | some name => [notEmitted name]
    | none => []

theorem usedClasses_ne_nil {files : List ProjectFile} {name : Units}
    (h : name ∈ usedClasses files) : name ≠ [] := by
  obtain ⟨file, -, hname⟩ := List.mem_flatMap.mp h
  have hpattern := (List.mem_filter.mp hname).2
  rintro rfl
  revert hpattern
  decide

theorem validateBuild_eq {files : List ProjectFile} {cssAssets : List CssAsset}
    (h : cssAssets ≠ []) :
    validateBuild files cssAssets = verdictOn files (joinLines (cssAssets.map (·.content))) := by
  unfold validateBuild verdictOn
  rw [if_neg (mt List.length_eq_zero_iff.mp h)]
  dsimp only
  split_ifs with hdirective
  · rfl
  · cases hmissing : (usedClasses files).find? fun name =>
      !includesUnits (joinLines (cssAssets.map (·.content))) (selectorOf name) with
    | none => rfl
    | some name => exact if_neg (usedClasses_ne_nil (List.mem_of_find?_eq_some hmissing))

theorem directivePattern_boundless : directivePattern.Boundless := by
  have hspelled : ∀ s, (spelled s).Boundless := fun s => Regex.boundless_each _
  refine ⟨hspelled _, ⟨trivial, trivial⟩, Regex.boundless_anyOf fun r hr => ?_, trivial, hspelled _⟩
  obtain ⟨word, -, rfl⟩ := List.mem_map.mp hr
  exact hspelled word

theorem includesUnits_append {css part : Units} (more : Units)
    (h : includesUnits css part = true) : includesUnits (css ++ more) part = true := by
  obtain ⟨rest, hrest, hpart⟩ := List.any_eq_true.mp h
  obtain ⟨before, rfl⟩ := (List.mem_tails rest css).mp hrest
  refine List.any_eq_true.mpr ⟨rest ++ more, ?_, ?_⟩
  · rw [List.mem_tails, List.append_assoc]
    exact List.suffix_append _ _
  · rw [List.isPrefixOf_iff_prefix] at hpart ⊢
    exact hpart.trans (List.prefix_append _ _)

/-- Two tests fail first at the same element exactly when the stronger one holds of all elements
before which the weaker one holds. -/
theorem find?_not_eq_iff {α : Type} {p q : α → Bool} (h : ∀ x, p x = true → q x = true)
    (xs : List α) :
    (xs.find? fun x => !p x) = (xs.find? fun x => !q x) ↔ ∀ x ∈ xs.takeWhile q, p x = true := by
  have hskip : ∀ (r : α → Bool) (x : α) (xs : List α), r x = true →
      ((x :: xs).find? fun x => !r x) = xs.find? fun x => !r x :=
    fun r x xs hx => List.find?_cons_of_neg (by simp [hx])
  have hstop : ∀ (r : α → Bool) (x : α) (xs : List α), ¬r x = true →
      ((x :: xs).find? fun x => !r x) = some x :=
    fun r x xs hx => List.find?_cons_of_pos (by simpa using hx)
  induction xs with
  | nil => simp
  | cons x xs ih =>
    by_cases hq : q x = true
    · rw [hskip q x xs hq, List.takeWhile_cons_of_pos hq]
      by_cases hp : p x = true
      · rw [hskip p x xs hp]
        refine ih.trans ?_
        rw [List.forall_mem_cons]
        exact ⟨fun hxs => ⟨hp, hxs⟩, fun hxs => hxs.2⟩
      · rw [hstop p x xs hp]
        refine iff_of_false (fun hfind => ?_) fun hxs => hp (hxs x List.mem_cons_self)
        have hnot := @List.find?_some _ (fun x => !q x) x xs hfind.symm
        rw [hq] at hnot
        cases hnot
    · have hp : ¬p x = true := fun hp => hq (h x hp)
      rw [hstop p x xs hp, hstop q x xs hq, List.takeWhile_cons_of_neg hq]
      exact iff_of_true rfl fun x hx => (nomatch hx)

theorem notEmitted_injective : Function.Injective notEmitted := by
  intro name name' h
  have hmessage := congrArg StylingIssue.message h
  simpa [notEmitted, buildIssue] using hmessage

/-- The verdicts on the start of a text and on the whole of it. -/
theorem verdictOn_append_iff (files : List ProjectFile) (part more : Units) :
    verdictOn files part = verdictOn files (part ++ more) ↔
      (directivePattern.test isWordUnit (part ++ more) = true →
        directivePattern.test isWordUnit part = true) ∧
      (directivePattern.test isWordUnit (part ++ more) = false →
        ∀ name ∈ (usedClasses files).takeWhile fun name =>
          includesUnits (part ++ more) (selectorOf name),
          includesUnits part (selectorOf name) = true) := by
  have hmono := fun htest => @Regex.test_append _ isWordUnit _ directivePattern_boundless part more
    htest
  have hfind := @find?_not_eq_iff _ (fun name => includesUnits part (selectorOf name))
    (fun name => includesUnits (part ++ more) (selectorOf name))
    (fun _ => includesUnits_append more) (usedClasses files)
  have hmissing : ∀ missing missing' : Option Units,
      (match missing with | some name => [notEmitted name] | none => []) =
        (match missing' with | some name => [notEmitted name] | none => []) ↔
      missing = missing' := by
    intro missing missing'
    refine ⟨fun h => ?_, fun h => by rw [h]⟩
    cases missing <;> cases missing'
    · rfl
    · cases h
    · cases h
    · exact congrArg some (notEmitted_injective (List.singleton_inj.mp h))
  have hdiffers : ∀ missing : Option Units,
      (match missing with | some name => [notEmitted name] | none => []) ≠
        [buildIssue .unexpandedDirective
          (unitsOf "The emitted CSS still contains unexpanded Tailwind directives")] := by
    intro missing h
    cases missing with
    | none => cases h
    | some name =>
      have hcode := congrArg StylingIssue.code (List.singleton_inj.mp h)
      cases hcode
  unfold verdictOn
  by_cases hwhole : directivePattern.test isWordUnit (part ++ more) = true
  · rw [if_pos hwhole, hwhole]
    by_cases hpart : directivePattern.test isWordUnit part = true
    · rw [if_pos hpart]
      exact iff_of_true rfl ⟨fun _ => hpart, fun h => (nomatch h)⟩
    · rw [if_neg hpart]
      exact iff_of_false (hdiffers _) fun h => hpart (h.1 rfl)
  · have hpart : ¬directivePattern.test isWordUnit part = true := fun h => hwhole (hmono h)
    rw [if_neg hwhole, if_neg hpart, hmissing, hfind]
    rw [Bool.not_eq_true] at hwhole
    rw [hwhole]
    exact ⟨fun h => ⟨fun h' => (nomatch h'), fun _ => h⟩, fun h => h.2 rfl⟩

/-- Nothing that is said about some CSS is what is said where there is none. -/
theorem verdictOn_ne_noAssets (files : List ProjectFile) (css : Units) :
    verdictOn files css ≠ validateBuild files [] := by
  intro h
  have hnone : validateBuild files [] =
      [buildIssue .missingBuildOutput (unitsOf "The production build emitted no CSS assets")] := rfl
  rw [hnone] at h
  unfold verdictOn at h
  split_ifs at h
  · have hcode := congrArg StylingIssue.code (List.singleton_inj.mp h)
    cases hcode
  · split at h
    · have hmessage := congrArg StylingIssue.message (List.singleton_inj.mp h)
      have hstart := congrArg (List.take 2) hmessage
      simp only [notEmitted, buildIssue, List.append_assoc] at hstart
      rw [List.take_append_of_le_length (by decide)] at hstart
      revert hstart
      decide
    · cases h

/-- The verdict on what is read of the CSS is the verdict on all of it exactly where there is no
CSS, or the limit is positive and what decides the verdict stands before the place where the limit
is used up. -/
theorem styling_verdict_iff (files : List ProjectFile) (workspacePath : Text)
    (dist : Option (List DistEntry)) (maxChars : ℤ) :
    validateBuild files (readCssBuildEvidence workspacePath dist maxChars) =
        validateBuild files (completeEvidence workspacePath dist) ↔
      cssFiles workspacePath dist = [] ∨
      0 < maxChars ∧
        let contents := (cssFiles workspacePath dist).map (·.2)
        let css := joinLines contents
        let read := css.take (cut maxChars.toNat contents)
        (directivePattern.test isWordUnit css = true →
          directivePattern.test isWordUnit read = true) ∧
        (directivePattern.test isWordUnit css = false →
          ∀ name ∈ (usedClasses files).takeWhile fun name => includesUnits css (selectorOf name),
            includesUnits read (selectorOf name) = true) := by
  dsimp only
  by_cases hfiles : cssFiles workspacePath dist = []
  · have hread : readCssBuildEvidence workspacePath dist maxChars =
        completeEvidence workspacePath dist := by
      rw [readCssBuildEvidence, completeEvidence, hfiles]
      rfl
    exact iff_of_true (congrArg _ hread) (.inl hfiles)
  have hcomplete : completeEvidence workspacePath dist ≠ [] := by
    rw [completeEvidence, ne_eq, List.map_eq_nil_iff]
    exact hfiles
  have hcontents : (completeEvidence workspacePath dist).map (·.content) =
      (cssFiles workspacePath dist).map (·.2) := by
    rw [completeEvidence, List.map_map]
    rfl
  rw [validateBuild_eq hcomplete, hcontents, or_iff_right hfiles]
  by_cases hlimit : 0 < maxChars
  · have hread := @readAssets_ne_nil workspacePath _ _ hlimit hfiles
    have hjoined := joinLines_readAssets workspacePath hlimit (cssFiles workspacePath dist)
    rw [readCssBuildEvidence, validateBuild_eq hread, hjoined]
    generalize joinLines ((cssFiles workspacePath dist).map (·.2)) = css
    generalize cut maxChars.toNat ((cssFiles workspacePath dist).map (·.2)) = place
    have hsplit := verdictOn_append_iff files (css.take place) (css.drop place)
    rw [List.take_append_drop] at hsplit
    rw [hsplit]
    exact ⟨fun h => ⟨hlimit, h⟩, fun h => h.2⟩
  · have hread : readCssBuildEvidence workspacePath dist maxChars = [] := by
      obtain ⟨target, rest, htargets⟩ := List.exists_cons_of_ne_nil hfiles
      rw [readCssBuildEvidence, htargets, readAssets, if_pos (by omega)]
    refine iff_of_false (fun h => ?_) fun h => hlimit h.1
    rw [hread] at h
    exact verdictOn_ne_noAssets files _ h.symm

private def padded : List ProjectFile :=
  [⟨"src/App.tsx", "<main className=\"p-4\" />", .tsx, none⟩]

private def emitted : Option (List DistEntry) :=
  some [.directory (text "assets") [.file (text "index.css") (unitsOf ".p-4\x7bpadding:1rem\x7d")]]

/-- The utility is emitted, but beyond the limit. -/
theorem utility_cut_off : ¬∀ (files : List ProjectFile) (workspacePath : Text)
    (dist : Option (List DistEntry)) (maxChars : ℤ),
    validateBuild files (readCssBuildEvidence workspacePath dist maxChars) =
      validateBuild files (completeEvidence workspacePath dist) := by
  intro h
  have hsame := h padded (text "/tmp/run") emitted 3
  revert hsame
  decide

end AppBuilder.Agent.Styling
