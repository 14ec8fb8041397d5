import AppBuilder.Artifacts.Bundle
import AppBuilder.Async.Discipline
import AppBuilder.Encoding.ResolvedPath
import Mathlib.Logic.Function.Basic

/-! `SharedFilesystemArtifactStore.ts`: blobs in a directory that several processes share. -/
namespace AppBuilder.Artifacts.SharedFilesystem
open Async Encoding

abbrev FileId := ℕ

inductive Node where
  | directory
  | symbolicLink
  | file (id : FileId)
  deriving DecidableEq, Repr

/-- `owner` is the call that has created the file. -/
structure FileContent where
  owner : ThreadId
  bytes : List ℕ
  deriving DecidableEq, Repr

/-- The names of a file system, by absolute path, and the files they may stand for. -/
structure FileWorld where
  names : Text → Option Node
  files : List FileContent

structure NodeError where
  code : Option String
  deriving DecidableEq, Repr

inductive StoreError where
  | node (error : NodeError)
  | artifact (error : ArtifactError) (cause : Option NodeError)
  deriving DecidableEq, Repr

structure Stats where
  isFile : Bool
  size : ℕ
  deriving DecidableEq, Repr

/-- `openNew` has the flags `wx`, and `openRead` has `O_RDONLY | O_NOFOLLOW`. A file is written and
read by one byte after the other. -/
inductive FileOp where
  | lstat (path : Text)
  | mkdir (path : Text)
  | directorySync (path : Text)
  | openNew (path : Text)
  | append (file : FileId) (byte : ℕ)
  | sync (file : FileId)
  | close (handle : Node)
  | link (existingPath newPath : Text)
  | unlink (path : Text)
  | openRead (path : Text)
  | stat (handle : Node)
  | read (file : FileId) (position : ℕ)
  deriving DecidableEq, Repr

abbrev FileOp.Reply : FileOp → Type
  | .lstat _ | .openRead _ => Node
  | .openNew _ => FileId
  | .stat _ => Stats
  | .read .. => Option ℕ
  | .mkdir _ | .directorySync _ | .append .. | .sync _ | .close _ | .link .. | .unlink _ => Unit

abbrev fileApi : Interface := ⟨FileOp, FileOp.Reply, StoreError⟩

abbrev FilePromise (α : Type) : Type := Prog fileApi α

abbrev performFile (op : FileOp) : FilePromise op.Reply := Prog.perform (I := fileApi) op

def errno {α : Type} (code : String) : Except StoreError α := .error (.node ⟨some code⟩)

/-- `path.dirname` -/
def dirname (path : Text) : Text :=
  let parent := Path.joined (Path.segments path).dropLast
  if parent = [] then ['/'] else parent

/-- `path.join(current, component)` -/
def join (current component : Text) : Text := Path.normalize (current ++ '/' :: component)

namespace FileWorld

def setName (w : FileWorld) (path : Text) (node : Option Node) : FileWorld :=
  { w with names := Function.update w.names path node }

/-- A new name in a directory. -/
def create (w : FileWorld) (path : Text) (node : Node) : Except StoreError Unit × FileWorld :=
  if w.names path ≠ none then (errno "EEXIST", w)
  else if w.names (dirname path) ≠ some .directory then (errno "ENOENT", w)
  else (.ok (), w.setName path (some node))

def write (w : FileWorld) (file : FileId) (byte : ℕ) : FileWorld :=
  { w with files := w.files.modify file fun f => { f with bytes := f.bytes ++ [byte] } }

def stats (w : FileWorld) : Node → Stats
  | .file id => ⟨true, (w.files[id]?.elim [] (·.bytes)).length⟩
  | .directory | .symbolicLink => ⟨false, 0⟩

def exec (t : ThreadId) : (op : FileOp) → FileWorld → fileApi.Answer op × FileWorld
  | .lstat path, w =>
    match w.names path with
    | some node => (.ok node, w)
    | none => (errno "ENOENT", w)
  | .mkdir path, w => w.create path .directory
  | .openNew path, w =>
    match w.create path (.file w.files.length) with
    | (.ok (), w') => (.ok w.files.length, { w' with files := w'.files ++ [⟨t, []⟩] })
    | (.error e, w') => (.error e, w')
  | .append file byte, w => (.ok (), w.write file byte)
  | .link existingPath newPath, w =>
    match w.names existingPath with
    | some node => w.create newPath node
    | none => (errno "ENOENT", w)
  | .unlink path, w =>
    match w.names path with
    | some _ => (.ok (), w.setName path none)
    | none => (errno "ENOENT", w)
  | .openRead path, w =>
    match w.names path with
    | some .symbolicLink => (errno "ELOOP", w)
    | some node => (.ok node, w)
    | none => (errno "ENOENT", w)
  | .stat handle, w => (.ok (w.stats handle), w)
  | .read file position, w => (.ok (w.files[file]?.bind (·.bytes[position]?)), w)
  | .directorySync _, w | .sync _, w | .close _, w => (.ok (), w)

/-- The bytes under a path. -/
def bytesAt (w : FileWorld) (path : Text) : Option (List ℕ) :=
  match w.names path with
  | some (.file id) => w.files[id]?.map (·.bytes)
  | _ => none

end FileWorld

def errorCodeText : ArtifactErrorCode → String
  | .storeUnavailable => "ARTIFACT_STORE_UNAVAILABLE"
  | .writeFailed => "ARTIFACT_WRITE_FAILED"
  | .notFound => "ARTIFACT_NOT_FOUND"
  | .corrupt => "ARTIFACT_CORRUPT"
  | .formatUnsupported => "ARTIFACT_FORMAT_UNSUPPORTED"
  | .limitExceeded => "ARTIFACT_LIMIT_EXCEEDED"
  | .invalidPath => "ARTIFACT_INVALID_PATH"
  | .invalidBundle => "ARTIFACT_INVALID_BUNDLE"
  | .idempotencyConflict => "ARTIFACT_IDEMPOTENCY_CONFLICT"

def artifactError (code : ArtifactErrorCode) (message : String) (retryable : Bool)
    (cause : Option NodeError) : StoreError :=
  .artifact ⟨code, errorCodeText code ++ ": " ++ message, retryable⟩ cause

def isCode (error : StoreError) (code : String) : Bool :=
  match error with
  | .node error => error.code == some code
  | .artifact error _ => errorCodeText error.code == code

def TRANSIENT_IO_CODES : List String :=
  ["EAGAIN", "EBUSY", "EDQUOT", "EINTR", "EIO", "EMFILE", "ENFILE", "ENOMEM", "ENOSPC", "ESTALE",
    "ETIMEDOUT"]

/-- The handlers rethrow an `ArtifactError` before they get here. -/
def mapFilesystemError (error : StoreError) (fallbackCode : ArtifactErrorCode) (message : String) :
    StoreError :=
  match error with
  | .artifact .. => error
  | .node error =>
    if TRANSIENT_IO_CODES.contains (error.code.getD "") then
      artifactError .storeUnavailable message true (some error)
    else artifactError fallbackCode message false (some error)

/-- `/[0-9a-f]/` -/
def isHexCharacter (c : Char) : Bool := ('0' ≤ c && c ≤ '9') || ('a' ≤ c && c ≤ 'f')

def isHexText (length : ℕ) (s : Text) : Bool := s.length == length && s.all isHexCharacter

/-- `STORAGE_KEY_PATTERN`, segment by segment. -/
def isStorageKey (storageKey : Text) : Bool :=
  match Path.segments storageKey with
  | [version, a, b, name] =>
    version == text "v1" && isHexText 2 a && isHexText 2 b && isHexText 32 (name.take 32) &&
      name.drop 32 == text ".json.gz"
  | _ => false

/-- A store has resolved its root once. -/
structure SharedFilesystemArtifactStore where
  cwd : Text
  root : Text
  resolved : Path.resolve cwd [root] = root

/-- The constructor. -/
def SharedFilesystemArtifactStore.new (cwd root : Text) : SharedFilesystemArtifactStore :=
  ⟨cwd, Path.resolve cwd [root], Path.resolve_resolve cwd [root]⟩

def assertDirectory (candidate : Text) : FilePromise Unit := do
  let stats ← performFile (.lstat candidate)
  if stats = .directory then return ()
  else .throw (artifactError .invalidPath "artifact path contains an unsafe component" false none)

/-- `removeTemp` and `directorySync` are the defaults of the options. -/
def removeTemp (tempPath : Text) : FilePromise Unit := performFile (.unlink tempPath)

/-- The turn of the loop of `ensureSafeParent` for one component; the state is `current` and the
`namespaceParents`. -/
def ensureComponent (state : Text × List Text) (component : Text) :
    FilePromise (Text × List Text) := do
  let current := join state.1 component
  (performFile (.mkdir current)).tryCatch fun error =>
    if isCode error "EEXIST" then return () else .throw error
  assertDirectory current
  return (current, state.2 ++ [state.1])

/-- The turn of the loop of `assertSafeParent`. -/
def assertComponent (current component : Text) : FilePromise Text := do
  assertDirectory (join current component)
  return join current component

/-- `handle.writeFile(bytes)` -/
def writeFile (handle : FileId) : List ℕ → FilePromise Unit
  | [] => return ()
  | byte :: bytes => do
    performFile (.append handle byte)
    writeFile handle bytes

/-- Read on until the end of the file or of the bytes that are still expected. -/
def readFrom (handle : FileId) (read : List ℕ) : ℕ → FilePromise (List ℕ)
  | 0 => return read
  | n + 1 => do
    let byte ← performFile (.read handle read.length)
    match byte with
    | some byte => readFrom handle (read ++ [byte]) n
    | none => return read

/-- `handle.readFile()` reads as many bytes as the file has at first. -/
def readFile : Node → FilePromise (List ℕ)
  | .file id => do
    let stats ← performFile (.stat (.file id))
    readFrom id [] stats.size
  | .directory | .symbolicLink => .throw (.node ⟨some "EISDIR"⟩)

def openRegularFile (finalPath : Text) : FilePromise Node := do
  let handle ← performFile (.openRead finalPath)
  Prog.tryCatch (do
    let stats ← performFile (.stat handle)
    if stats.isFile then return handle
    else .throw (artifactError .invalidPath "artifact target must be a regular file" false none))
    fun error => do
      let _ ← (performFile (.close handle)).attempt
      .throw error

/-- The variables of `put` that its `catch` and its `finally` read. -/
structure PutLocals where
  handle : Option FileId := none
  tempCreated : Bool := false
  publishing : Bool := false

/-- Await something inside of the `try` of `put`. -/
def PutLocals.await {α : Type} (locals : PutLocals) (p : FilePromise α)
    (next : α → FilePromise (Except StoreError Unit × PutLocals)) :
    FilePromise (Except StoreError Unit × PutLocals) := do
  let result ← p.attempt
  match result with
  | .ok value => next value
  | .error error => return (.error error, locals)

namespace SharedFilesystemArtifactStore

variable (store : SharedFilesystemArtifactStore)

def resolveKey (storageKey : Text) : Except StoreError Text :=
  if !isStorageKey storageKey then
    .error (artifactError .invalidPath "storage key has an invalid format" false none)
  else
    let resolved := Path.resolve store.cwd [store.root, storageKey]
    if !startsWith resolved (store.root ++ ['/']) then
      .error (artifactError .invalidPath "storage key escapes the artifact root" false none)
    else .ok resolved

/-- `path.relative(this.root, parent).split(path.sep).filter(Boolean)` -/
def components (parent : Text) : List Text := Path.names (Path.relative store.cwd store.root parent)

def ensureSafeParent (parent : Text) : FilePromise Unit := do
  assertDirectory store.root
  let state ← Prog.foldEach ensureComponent (store.root, []) (store.components parent)
  Prog.foldEach (fun _ namespaceParent => performFile (.directorySync namespaceParent)) () state.2

def assertSafeParent (parent : Text) : FilePromise Unit := do
  assertDirectory store.root
  let _ ← Prog.foldEach assertComponent store.root (store.components parent)
  return ()

/-- `random` is what `randomBytes(12).toString('hex')` gives. -/
def tempPathFor (finalPath random : Text) : Text := finalPath ++ '.' :: random ++ text ".tmp"

/-- The `try` block of `put`, with the variables at its end. -/
def putTry (finalPath tempPath : Text) (bytes : List ℕ) :
    FilePromise (Except StoreError Unit × PutLocals) :=
  let locals : PutLocals := {}
  locals.await (store.ensureSafeParent (dirname finalPath)) fun _ =>
  locals.await (performFile (.openNew tempPath)) fun handle =>
  let locals := { locals with handle := some handle, tempCreated := true }
  locals.await (writeFile handle bytes) fun _ =>
  locals.await (performFile (.sync handle)) fun _ =>
  locals.await (performFile (.close (.file handle))) fun _ =>
  let locals := { locals with handle := none }
  PutLocals.await { locals with publishing := true } (performFile (.link tempPath finalPath)) fun _ =>
  locals.await (performFile (.directorySync (dirname finalPath))) fun _ =>
  return (.ok (), locals)

/-- The `catch` block of `put`. -/
def putCatch (finalPath : Text) (locals : PutLocals) (error : StoreError) : FilePromise Unit :=
  match error with
  | .artifact .. => .throw error
  | .node cause =>
    if locals.publishing && isCode error "EEXIST" then do
      (performFile (.directorySync (dirname finalPath))).tryCatch fun syncError =>
        .throw (mapFilesystemError syncError .writeFailed "failed to sync artifact directory")
      .throw (artifactError .writeFailed "artifact already exists" false (some cause))
    else .throw (mapFilesystemError error .writeFailed "failed to write artifact")

/-- The `finally` block of `put`. -/
def putFinally (tempPath : Text) (locals : PutLocals) : FilePromise Unit := do
  match locals.handle with
  | some handle =>
    let _ ← (performFile (.close (.file handle))).attempt
  | none => pure ()
  if locals.tempCreated then
    let _ ← (removeTemp tempPath).attempt
  return ()

def put (storageKey : Text) (bytes : List ℕ) (random : Text) : FilePromise Unit :=
  match store.resolveKey storageKey with
  | .error error => .throw error
  | .ok finalPath => do
    let tempPath := tempPathFor finalPath random
    let (result, locals) ← store.putTry finalPath tempPath bytes
    Prog.tryFinally
      (match result with
      | .ok () => return ()
      | .error error => putCatch finalPath locals error)
      (putFinally tempPath locals)

/-- The `catch` block of `get`. -/
def getCatch (error : StoreError) : FilePromise (List ℕ) :=
  match error with
  | .artifact .. => .throw error
  | .node cause =>
    if isCode error "ELOOP" then
      .throw (artifactError .invalidPath "artifact target must not be a symbolic link" false cause)
    else if isCode error "ENOENT" then
      .throw (artifactError .notFound "artifact does not exist" false cause)
    else .throw (mapFilesystemError error .storeUnavailable "failed to read artifact")

def get (storageKey : Text) : FilePromise (List ℕ) :=
  match store.resolveKey storageKey with
  | .error error => .throw error
  | .ok finalPath =>
    Prog.tryCatch (do
      store.assertSafeParent (dirname finalPath)
      let handle ← openRegularFile finalPath
      (readFile handle).tryFinally (performFile (.close handle))) getCatch

end SharedFilesystemArtifactStore

/-- A call, with what `randomBytes` gives to a `put`. -/
inductive StoreCall where
  | put (storageKey : Text) (bytes : List ℕ) (random : Text)
  | get (storageKey : Text)
  deriving DecidableEq, Repr

def StoreCall.body (store : SharedFilesystemArtifactStore) : StoreCall → FilePromise (Option (List ℕ))
  | .put storageKey bytes random => do
    store.put storageKey bytes random
    return none
  | .get storageKey => do
    let bytes ← store.get storageKey
    return some bytes

/-- Any number of calls of any processes, on one file system. Every operation may fail, with or
without effect, but a `link` reports `EEXIST` only of a name that exists. Processes may crash. -/
def sharing (store : SharedFilesystemArtifactStore) :
    Machine fileApi FileWorld StoreCall (Option (List ℕ)) Empty where
  exec t _ op w := FileWorld.exec t op w
  body := StoreCall.body store
  fault
    | .link .., .node error => error.code != some "EEXIST"
    | _, .node _ => true
    | _, .artifact .. => false
  spawnable _ _ := true
  act a _ := a.elim
  crashes := true
  onCrash _ w := w

end AppBuilder.Artifacts.SharedFilesystem
