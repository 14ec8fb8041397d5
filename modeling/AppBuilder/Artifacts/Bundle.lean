import AppBuilder.Agent.Schemas

/-! `artifacts/bundle.ts`: the canonical form of a project bundle, and its codec. -/
namespace AppBuilder.Artifacts
open Agent Encoding

inductive ArtifactErrorCode where
  | storeUnavailable
  | writeFailed
  | notFound
  | corrupt
  | formatUnsupported
  | limitExceeded
  | invalidPath
  | invalidBundle
  | idempotencyConflict
  deriving DecidableEq, Repr

structure ArtifactError where
  code : ArtifactErrorCode
  message : String
  retryable : Bool := false
  deriving DecidableEq, Repr

def fail {α : Type} (code : ArtifactErrorCode) (message : String) : Except ArtifactError α :=
  .error { code, message }

def refusedSegment (segment : Text) : Bool :=
  segment = [] || segment = text "." || segment = text ".."

def refusedPath (normalized : Text) : Bool :=
  startsWith normalized (text "/") || hasDriveRoot normalized || normalized.contains NUL ||
    (Path.segments normalized).any refusedSegment || !supportedExtension normalized

/-- The path of a file, once it is known to be a string. -/
def canonicalPath (rawPath : Text) : Except ArtifactError Text :=
  if rawPath.length = 0 ∨ rawPath ≠ trim rawPath then
    fail .invalidPath "Artifact file path must be a non-empty string"
  else if refusedPath (slashes rawPath) then
    fail .invalidPath ("Unsafe or unsupported artifact path: " ++ String.ofList rawPath)
  else .ok (slashes rawPath)

section Paths

variable {path rawPath : Text}

theorem startsWith_slash : startsWith path (text "/") = Path.isAbsolute path := by
  cases path with
  | nil => rfl
  | cons c path =>
    change ('/' == c && List.isPrefixOf [] path) = (some c == some '/')
    rw [List.isPrefixOf_nil_left, Bool.and_true, Option.some_beq_some, BEq.comm]

/-- No segment is empty or made of dots. -/
theorem refusedSegment_eq_false :
    (Path.segments path).any refusedSegment = false ↔ Path.IsPlain path := by
  rw [List.any_eq_false]
  refine forall₂_congr fun s hs => ?_
  have hslash := Path.not_mem_of_mem_segments hs
  simp only [refusedSegment, Bool.or_eq_true, decide_eq_true_eq, not_or]
  exact ⟨fun h => ⟨hslash, h.1.1, h.1.2, h.2⟩, fun h => ⟨⟨h.ne_nil, h.ne_dot⟩, h.ne_dotDot⟩⟩

/-- The paths that artifacts hold. -/
structure CanonicalPath (path : Text) : Prop where
  noBackslash : '\\' ∉ path
  trimmed : trim path = path
  plain : Path.IsPlain path
  noDriveRoot : hasDriveRoot path = false
  noNul : NUL ∉ path
  extension : supportedExtension path = true

theorem canonicalPath_spec (h : canonicalPath rawPath = .ok path) :
    path = slashes rawPath ∧ CanonicalPath path := by
  unfold canonicalPath at h
  split_ifs at h with hblank hrefused
  · cases h
  · cases h
  · cases h
    push Not at hblank
    simp only [refusedPath, Bool.not_eq_true, Bool.or_eq_false_iff, Bool.not_eq_false'] at hrefused
    obtain ⟨⟨⟨⟨-, hdrive⟩, hnul⟩, hplain⟩, hextension⟩ := hrefused
    refine ⟨rfl, not_mem_slashes, ?_, refusedSegment_eq_false.mp hplain, hdrive, ?_, hextension⟩
    · rw [trim_slashes, ← hblank.2]
    · simpa using hnul

theorem canonicalPath_of_canonical (h : CanonicalPath path) : canonicalPath path = .ok path := by
  have hblank : ¬ (path.length = 0 ∨ path ≠ trim path) := by
    rw [h.trimmed]
    simp [Path.ne_nil_of_plain h.plain]
  have hrefused : refusedPath path = false := by
    have hnul : path.contains NUL = false := by simpa using h.noNul
    rw [refusedPath, startsWith_slash, Path.isAbsolute_of_plain h.plain, h.noDriveRoot, hnul,
      refusedSegment_eq_false.mpr h.plain, h.extension]
    rfl
  rw [canonicalPath, slashes_eq_self h.noBackslash, if_neg hblank, hrefused]
  rfl

theorem canonicalPath_self_iff : canonicalPath path = .ok path ↔ CanonicalPath path :=
  ⟨fun h => (canonicalPath_spec h).2, canonicalPath_of_canonical⟩

end Paths

end AppBuilder.Artifacts
