import AppBuilder.Encoding.ResolvedPath
import AppBuilder.Sandbox.Errors

/-! `sandbox/path.ts`: the paths below the working directory of a sandbox. -/
namespace AppBuilder.Sandbox
open Encoding

def deniedPath {α : Type} (message : String) : Except SandboxError α :=
  .error { code := .policyDenied, message }

def deniedSegment (segment : Text) : Bool :=
  segment.length = 0 || segment = text "." || segment = text ".."

def normalizeSandboxRelativePath (candidate : String) : Except SandboxError String :=
  let normalized := slashes candidate.toList
  let segments := Path.segments normalized
  if candidate.toList.contains NUL then deniedPath "Sandbox path contains a NUL byte"
  else if normalized.length = 0 || startsWith normalized (text "/") || hasDriveLetter normalized then
    deniedPath "Sandbox path must be relative"
  else if segments.any deniedSegment then deniedPath "Sandbox path contains an unsafe segment"
  else .ok (String.ofList (Path.joined segments))

/-- The relative path that has been checked is the one that is resolved. -/
def resolveSandboxPath (cwd root : Text) (candidate : String) : Except SandboxError Text :=
  let canonicalRoot := Path.resolve cwd [root]
  match normalizeSandboxRelativePath candidate with
  | .error error => .error error
  | .ok normalized =>
    let resolved := Path.resolve cwd [canonicalRoot, normalized.toList]
    let relative := Path.relative cwd canonicalRoot resolved
    if relative.length = 0 || relative = Path.dotDot || startsWith relative (text "../") ||
        Path.isAbsolute relative then
      deniedPath "Sandbox path escapes its root"
    else .ok resolved

end AppBuilder.Sandbox
