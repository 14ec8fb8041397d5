import AppBuilder.Agent.Workspace
import AppBuilder.Artifacts.Bundle
import AppBuilder.Sandbox.Path

/-! Where the paths that `sandbox/path.ts` and `agent/workspace/createWorkspace.ts` accept lead to. -/
namespace AppBuilder.Agent
open Encoding Artifacts Sandbox
open Encoding.Path (IsPlain Plain segments names below)

variable {cwd root path : Text} {candidate normalized : String}

theorem deniedSegment_eq : deniedSegment = refusedSegment := by
  funext segment
  simp [deniedSegment, refusedSegment]

theorem normalizeSandboxRelativePath_iff :
    normalizeSandboxRelativePath candidate = .ok normalized ↔
      normalized = String.ofList (slashes candidate.toList) ∧ NUL ∉ candidate.toList ∧
        hasDriveLetter (slashes candidate.toList) = false ∧ IsPlain (slashes candidate.toList) := by
  simp only [normalizeSandboxRelativePath, Path.joined_segments, startsWith_slash,
    deniedSegment_eq]
  split_ifs with hnul hrelative hsegment
  · have hnul : NUL ∈ candidate.toList := by simpa using hnul
    simp [deniedPath, hnul]
  · refine iff_of_false (fun h => nomatch h) fun ⟨_, _, hdrive, hplain⟩ => ?_
    simp only [Bool.or_eq_true, decide_eq_true_eq, List.length_eq_zero_iff] at hrelative
    rcases hrelative with (hnil | habs) | hletter
    · exact Path.ne_nil_of_plain hplain hnil
    · rw [Path.isAbsolute_of_plain hplain] at habs
      cases habs
    · rw [hdrive] at hletter
      cases hletter
  · refine iff_of_false (fun h => nomatch h) fun ⟨_, _, _, hplain⟩ => ?_
    rw [refusedSegment_eq_false.mpr hplain] at hsegment
    cases hsegment
  · have hplain := refusedSegment_eq_false.mp (Bool.not_eq_true _ ▸ hsegment)
    simp only [Bool.or_eq_true, not_or, Bool.not_eq_true] at hrelative
    have hnul : NUL ∉ candidate.toList := by simpa using hnul
    simp only [Except.ok.injEq, hnul, hrelative.2, hplain, not_false_eq_true, and_true]
    exact eq_comm

/-- The normal form is accepted as it is. -/
theorem normalizeSandboxRelativePath_idempotent
    (h : normalizeSandboxRelativePath candidate = .ok normalized) :
    normalizeSandboxRelativePath normalized = .ok normalized := by
  obtain ⟨rfl, hnul, hdrive, hplain⟩ := normalizeSandboxRelativePath_iff.mp h
  have hslashes : slashes (slashes candidate.toList) = slashes candidate.toList :=
    slashes_eq_self not_mem_slashes
  rw [normalizeSandboxRelativePath_iff, String.toList_ofList, hslashes]
  refine ⟨rfl, fun hmem => ?_, hdrive, hplain⟩
  obtain ⟨c, hc, heq⟩ := List.mem_map.mp hmem
  split_ifs at heq with hslash
  · cases heq
  · exact hnul (heq ▸ hc)

/-- What is accepted leads to its own segments below the root. -/
theorem resolveSandboxPath_spec (h : resolveSandboxPath cwd root candidate = .ok path) :
    ∃ normalized, normalizeSandboxRelativePath candidate = .ok normalized ∧
      IsPlain normalized.toList ∧ normalized.toList = slashes candidate.toList ∧
      path = below (Path.resolve cwd [root]) (segments normalized.toList) := by
  unfold resolveSandboxPath at h
  split at h
  · cases h
  · next normalized hnormalized =>
    dsimp only at h
    obtain ⟨heq, -, -, hplain⟩ := normalizeSandboxRelativePath_iff.mp hnormalized
    have hlist : normalized.toList = slashes candidate.toList := by
      rw [heq, String.toList_ofList]
    rw [← hlist] at hplain
    refine ⟨normalized, hnormalized, hplain, hlist, ?_⟩
    split_ifs at h
    · cases h
    · simp only [Except.ok.injEq] at h
      rw [← h, Path.resolve_below rfl hplain, Path.resolve_resolve]

/-- Every normal form is accepted, below any root. -/
theorem resolveSandboxPath_accepts (h : normalizeSandboxRelativePath candidate = .ok normalized) :
    resolveSandboxPath cwd root candidate =
      .ok (below (Path.resolve cwd [root]) (segments normalized.toList)) := by
  obtain ⟨heq, -, -, hplain⟩ := normalizeSandboxRelativePath_iff.mp h
  have hlist : normalized.toList = slashes candidate.toList := by
    rw [heq, String.toList_ofList]
  rw [← hlist] at hplain
  have hresolved : Path.resolve cwd [Path.resolve cwd [root], normalized.toList] =
      below (Path.resolve cwd [root]) (segments normalized.toList) := by
    rw [Path.resolve_below rfl hplain, Path.resolve_resolve]
  have hrelative : Path.relative cwd (Path.resolve cwd [root])
      (below (Path.resolve cwd [root]) (segments normalized.toList)) = normalized.toList := by
    rw [← hresolved, Path.relative, Path.resolve_resolve, Path.resolve_resolve, hresolved,
      Path.names_below (Path.resolve_spec cwd [root]).1 hplain, Path.relativeNames_append,
      Path.joined_segments]
  have hup : normalized.toList ≠ Path.dotDot := by
    intro he
    have hmem : Path.dotDot ∈ segments normalized.toList := by
      rw [he]
      decide
    exact (hplain _ hmem).ne_dotDot rfl
  have hstart : startsWith normalized.toList (text "../") = false := by
    by_contra hstart
    rw [Bool.not_eq_false] at hstart
    obtain ⟨rest, hrest⟩ := List.isPrefixOf_iff_prefix.mp hstart
    have hmem : Path.dotDot ∈ segments normalized.toList := by
      have hsplit : normalized.toList = Path.dotDot ++ '/' :: rest := hrest.symm
      rw [hsplit, Path.segments_cons_slash]
      exact List.mem_append_left _ (by decide)
    exact (hplain _ hmem).ne_dotDot rfl
  unfold resolveSandboxPath
  rw [h]
  dsimp only
  rw [hresolved, hrelative, if_neg]
  simp only [Bool.or_eq_true, decide_eq_true_eq, not_or, List.length_eq_zero_iff, hup, hstart,
    Path.isAbsolute_of_plain hplain]
  exact ⟨⟨⟨Path.ne_nil_of_plain hplain, not_false⟩, Bool.false_ne_true⟩, Bool.false_ne_true⟩

theorem resolveFilePath_within (h : resolveFilePath cwd root candidate = .ok path) :
    ∃ location, path = below (Path.resolve cwd [root]) location ∧ ∀ s ∈ location, Plain s := by
  unfold resolveFilePath at h
  dsimp only at h
  split_ifs at h with hescapes
  simp only [Except.ok.injEq] at h
  subst h
  simp only [Bool.or_eq_true, not_or, Bool.and_eq_true, not_and, Bool.not_eq_true',
    decide_eq_true_eq, not_not] at hescapes
  by_cases hinside : startsWith (Path.resolve cwd [root, slashes candidate.toList])
      (Path.resolve cwd [root] ++ ['/']) = true
  · exact Path.below_of_startsWith (List.isPrefixOf_iff_prefix.mp hinside)
  · have hsame := hescapes.2 (by simpa using hinside)
    obtain ⟨-, hroot⟩ := Path.resolve_spec cwd [root]
    refine ⟨[], ?_, fun s hs => (nomatch hs)⟩
    rw [hsame, below, List.append_nil]
    exact hroot

/-- What the validation workspace accepts of the normal forms leads to the same place. -/
theorem resolveFilePath_plain (habs : Path.isAbsolute root = true)
    (hplain : IsPlain (slashes candidate.toList))
    (h : resolveFilePath cwd root candidate = .ok path) :
    path = below (Path.resolve cwd [root]) (segments (slashes candidate.toList)) := by
  unfold resolveFilePath at h
  dsimp only at h
  split_ifs at h
  simp only [Except.ok.injEq] at h
  rw [← h, Path.resolve_below habs hplain]

/-- A path at some names below a root that is itself a place of the file system. -/
structure At (root : Text) (location : List Text) (path : Text) : Prop where
  eq : path = below root location
  plain : ∀ name ∈ location, Plain name

/-- The sandbox's paths lie strictly inside their root, one for each normal form; the validation
workspace's never lie outside; and a string means the same place to both. -/
theorem paths_contained (cwd root : Text) :
    (∀ candidate path, resolveSandboxPath cwd root candidate = .ok path →
      ∃ location, location ≠ [] ∧ At (Path.resolve cwd [root]) location path) ∧
    (∀ candidate candidate' path, resolveSandboxPath cwd root candidate = .ok path →
      resolveSandboxPath cwd root candidate' = .ok path →
      normalizeSandboxRelativePath candidate = normalizeSandboxRelativePath candidate') ∧
    (∀ candidate normalized, normalizeSandboxRelativePath candidate = .ok normalized →
      normalizeSandboxRelativePath normalized = .ok normalized) ∧
    (∀ filePath target, resolveFilePath cwd root filePath = .ok target →
      ∃ location, At (Path.resolve cwd [root]) location target) ∧
    ∀ workspacePath, Path.isAbsolute workspacePath = true → ∀ candidate path target,
      resolveSandboxPath cwd root candidate = .ok path →
      resolveFilePath cwd workspacePath candidate = .ok target →
      ∃ location, At (Path.resolve cwd [root]) location path ∧
        At (Path.resolve cwd [workspacePath]) location target := by
  refine ⟨?_, ?_, ?_, ?_, ?_⟩
  · intro candidate path h
    obtain ⟨normalized, -, hplain, -, heq⟩ := resolveSandboxPath_spec h
    exact ⟨segments normalized.toList, List.splitOn_ne_nil '/' _, heq, hplain⟩
  · intro candidate candidate' path h h'
    obtain ⟨normalized, hnormal, hplain, -, heq⟩ := resolveSandboxPath_spec h
    obtain ⟨normalized', hnormal', hplain', -, heq'⟩ := resolveSandboxPath_spec h'
    have hrootPlain := (Path.resolve_spec cwd [root]).1
    have hnames := congrArg names (heq.symm.trans heq')
    rw [Path.names_below hrootPlain hplain, Path.names_below hrootPlain hplain',
      List.append_cancel_left_eq] at hnames
    have hjoined := congrArg Path.joined hnames
    rw [Path.joined_segments, Path.joined_segments] at hjoined
    rw [hnormal, hnormal', String.toList_inj.mp hjoined]
  · exact fun candidate normalized h => normalizeSandboxRelativePath_idempotent h
  · intro filePath target h
    obtain ⟨location, heq, hplain⟩ := resolveFilePath_within h
    exact ⟨location, heq, hplain⟩
  · intro workspacePath habs candidate path target h htarget
    obtain ⟨normalized, -, hplain, hlist, heq⟩ := resolveSandboxPath_spec h
    rw [hlist] at hplain heq
    exact ⟨_, ⟨heq, hplain⟩, ⟨resolveFilePath_plain habs hplain htarget, hplain⟩⟩

end AppBuilder.Agent
