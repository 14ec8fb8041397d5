import AppBuilder.Artifacts.Bundle
import AppBuilder.Encoding.Base64
import AppBuilder.Encoding.Properties
import AppBuilder.Encoding.Sha256
import AppBuilder.Encoding.Utf8

/-! What the codecs of project and preview bundles have in common: canonical JSON, its digest, and
gzip. -/
namespace AppBuilder.Artifacts
open Agent Encoding

inductive GunzipError where
  | bufferTooLarge
  | data
  deriving DecidableEq, Repr

/-- `node:zlib`, as far as the codecs rely on it. `inflate` is what a compressed stream stands for;
bytes are numbers below 256. -/
structure Zlib where
  gzip : List ℕ → List ℕ
  gunzip : ℕ → List ℕ → Except GunzipError (List ℕ)
  inflate : List ℕ → Option (List ℕ)
  inflate_gzip : ∀ bytes, (∀ byte ∈ bytes, byte < 256) → inflate (gzip bytes) = some bytes
  gunzip_inflate : ∀ maxOutputLength compressed bytes, inflate compressed = some bytes →
    gunzip maxOutputLength compressed =
      if bytes.length ≤ maxOutputLength then .ok bytes else .error .bufferTooLarge
  inflate_gunzip : ∀ maxOutputLength compressed bytes,
    gunzip maxOutputLength compressed = .ok bytes → inflate compressed = some bytes

/-- A compressor that is known on some inputs, each with its stream; other inputs get a mark. -/
def Zlib.ofTable (table : List (List ℕ × List ℕ))
    (hstreams : (table.map (·.2)).Nodup)
    (hmark : ∀ entry ∈ table, entry.2.head? ≠ some 0) : Zlib :=
  let inflate (compressed : List ℕ) : Option (List ℕ) :=
    match table.find? (·.2 == compressed) with
    | some entry => some entry.1
    | none => if compressed.head? = some 0 then some compressed.tail else none
  { gzip := fun bytes =>
      match table.find? (·.1 == bytes) with
      | some entry => entry.2
      | none => 0 :: bytes
    gunzip := fun maxOutputLength compressed =>
      match inflate compressed with
      | none => .error .data
      | some bytes =>
        if bytes.length ≤ maxOutputLength then .ok bytes else .error .bufferTooLarge
    inflate
    inflate_gzip := by
      intro bytes _
      cases hfind : table.find? (·.1 == bytes) with
      | none =>
        have hother : table.find? (·.2 == 0 :: bytes) = none := by
          refine List.find?_eq_none.mpr fun entry he hstream => hmark entry he ?_
          rw [beq_iff_eq.mp hstream, List.head?_cons]
        simp only [inflate, hother]
        rfl
      | some entry =>
        have hmem := List.mem_of_find?_eq_some hfind
        have hbytes : entry.1 = bytes := by simpa using List.find?_some hfind
        have hsame : table.find? (·.2 == entry.2) = some entry := by
          cases hfound : table.find? (·.2 == entry.2) with
          | none => exact absurd (BEq.rfl) (List.find?_eq_none.mp hfound entry hmem)
          | some other =>
            have hstream : other.2 = entry.2 := by simpa using List.find?_some hfound
            exact congrArg some (List.inj_on_of_nodup_map hstreams
              (List.mem_of_find?_eq_some hfound) hmem hstream)
        simp only [inflate, hsame, hbytes]
    gunzip_inflate := by
      intro maxOutputLength compressed bytes h
      rw [h]
    inflate_gunzip := by
      intro maxOutputLength compressed bytes h
      cases hi : inflate compressed with
      | none =>
        rw [hi] at h
        cases h
      | some found =>
        rw [hi] at h
        dsimp only at h
        split_ifs at h
        cases h
        rfl }

/-- What the codecs use of the platform; `one` is the number `1`. -/
structure Platform (N : Type) where
  numbers : Json.NumberText N
  one : N
  print_one : numbers.print one = ['1']
  zlib : Zlib

def artifactFormat : String := "open-v0.bundle+json+gzip"

structure ArtifactLimits where
  maxCompressedBytes : ℕ
  maxUncompressedBytes : ℕ
  maxFiles : ℕ
  deriving DecidableEq, Repr

/-- What a manifest says of the bytes. -/
structure ArtifactIntegrity where
  format : String
  formatVersion : ℕ
  sha256 : Text
  uncompressedBytes : ℕ
  compressedBytes : ℕ
  fileCount : ℕ
  deriving DecidableEq, Repr

structure EncodedArtifact where
  compressedBytes : List ℕ
  uncompressedBytes : List ℕ
  sha256 : Text
  manifest : ArtifactIntegrity
  deriving DecidableEq, Repr

def isSafeInteger (n : ℕ) : Bool := n ≤ 2 ^ 53 - 1

def validateLimit (value : ℕ) (name : String) : Except ArtifactError Unit :=
  if !isSafeInteger value ∨ value ≤ 0 then
    fail .invalidBundle (name ++ " must be a positive safe integer")
  else .ok ()

def validateLimits (limits : ArtifactLimits) : Except ArtifactError Unit := do
  validateLimit limits.maxCompressedBytes "maxCompressedBytes"
  validateLimit limits.maxUncompressedBytes "maxUncompressedBytes"
  validateLimit limits.maxFiles "maxFiles"

section Values

variable {N : Type}

/-- `value[key]` of an object, where nothing is inherited. -/
def property (members : List (Text × Json N)) (key : String) : Json N :=
  (members.lookup (text key)).getD .undefined

/-- `value === s` -/
def isText (value : Json N) (s : Text) : Bool :=
  match value with
  | .string t => t == s
  | _ => false

/-- `value === n` -/
def isNumber [DecidableEq N] (value : Json N) (n : N) : Bool :=
  match value with
  | .number m => m == n
  | _ => false

/-- The elements, if `Array.isArray(value)`. -/
def elements? : Json N → Option (List (Json N))
  | .array elements => some elements
  | _ => none

/-- The `files` that `enforceFileCount` counts. -/
def filesOf : Json N → Option (List (Json N))
  | .object members => elements? (property members "files")
  | _ => none

def enforceFileCount (input : Json N) (limits : ArtifactLimits) (message : String) :
    Except ArtifactError Unit :=
  if (filesOf input).any fun files => files.length > limits.maxFiles then
    fail .limitExceeded message
  else .ok ()

/-- `Buffer.from(JSON.stringify(value), 'utf8')` -/
def jsonBytes (numbers : Json.NumberText N) (value : Json N) : List ℕ :=
  Utf8.encode ((Json.stringify numbers.print value).getD (text "undefined"))

def parseBytes (numbers : Json.NumberText N) (bytes : List ℕ) : Option (Json N) :=
  (Utf8.decodeFatal bytes).bind (Json.parse numbers)

theorem isText_iff {value : Json N} {s : Text} : isText value s = true ↔ value = .string s := by
  cases value <;> simp [isText]

theorem isNumber_iff [DecidableEq N] {value : Json N} {n : N} :
    isNumber value n = true ↔ value = .number n := by
  cases value <;> simp [isNumber]

theorem elements?_eq_some {value : Json N} {elements : List (Json N)} :
    elements? value = some elements ↔ value = .array elements := by
  cases value <;> simp [elements?]

end Values

/-- The result of an encoder, with the manifest that describes it. -/
def encodedFrom (zlib : Zlib) (uncompressedBytes : List ℕ) (fileCount : ℕ) : EncodedArtifact where
  compressedBytes := zlib.gzip uncompressedBytes
  uncompressedBytes := uncompressedBytes
  sha256 := Sha256.digest uncompressedBytes
  manifest := {
    format := artifactFormat
    formatVersion := 1
    sha256 := Sha256.digest uncompressedBytes
    uncompressedBytes := uncompressedBytes.length
    compressedBytes := (zlib.gzip uncompressedBytes).length
    fileCount }

section Results

variable {α β ε : Type}

theorem bind_ok_iff {p : Except ε α} {f : α → Except ε β} {b : β} :
    (p >>= f) = .ok b ↔ ∃ a, p = .ok a ∧ f a = .ok b := by
  cases p with
  | error e =>
    refine ⟨nofun, ?_⟩
    rintro ⟨a, h, -⟩
    cases h
  | ok a =>
    refine ⟨fun h => ⟨a, rfl, h⟩, ?_⟩
    rintro ⟨a', h, hb⟩
    cases h
    exact hb

/-- `xs.map(f)`, where `f` may throw. -/
theorem mapM_ok_iff {f : α → Except ε β} {xs : List α} {ys : List β} :
    xs.mapM f = .ok ys ↔ List.Forall₂ (fun x y => f x = .ok y) xs ys := by
  induction xs generalizing ys with
  | nil =>
    rw [List.mapM_nil, List.forall₂_nil_left_iff]
    exact ⟨fun h => (Except.ok.inj h).symm, fun h => congrArg Except.ok h.symm⟩
  | cons x xs ih =>
    rw [List.mapM_cons, List.forall₂_cons_left_iff, bind_ok_iff]
    refine exists_congr fun y => ?_
    rw [bind_ok_iff]
    constructor
    · rintro ⟨hy, ys', hys', h⟩
      exact ⟨ys', hy, ih.mp hys', (Except.ok.inj h).symm⟩
    · rintro ⟨ys', hy, hys', rfl⟩
      exact ⟨hy, ys', ih.mpr hys', rfl⟩

theorem mem_of_mapM_ok {f : α → Except ε β} {xs : List α} {ys : List β}
    (h : xs.mapM f = .ok ys) {y : β} (hy : y ∈ ys) : ∃ x ∈ xs, f x = .ok y := by
  have hall := mapM_ok_iff.mp h
  induction hall with
  | nil => cases hy
  | @cons x y' xs ys hx htail ih =>
    rcases List.mem_cons.mp hy with rfl | hy
    · exact ⟨x, List.mem_cons_self, hx⟩
    · obtain ⟨x', hx', he⟩ := ih (mapM_ok_iff.mpr htail) hy
      exact ⟨x', .tail _ hx', he⟩

end Results

section Distinct

/-- The loop that refuses a path that was `seen` before. -/
def refuseDuplicates (message : String) : List Text → List Text → Except ArtifactError Unit
  | _, [] => .ok ()
  | seen, path :: rest =>
    if seen.contains path then fail .invalidPath (message ++ String.ofList path)
    else refuseDuplicates message (path :: seen) rest

theorem refuseDuplicates_ok_iff {message : String} {seen paths : List Text} :
    refuseDuplicates message seen paths = .ok () ↔ paths.Nodup ∧ ∀ path ∈ paths, path ∉ seen := by
  induction paths generalizing seen with
  | nil => simp [refuseDuplicates]
  | cons path rest ih =>
    rw [refuseDuplicates]
    split_ifs with hseen
    · have hmem : path ∈ seen := by simpa using hseen
      exact ⟨nofun, fun h => absurd hmem (h.2 path List.mem_cons_self)⟩
    · have hnew : path ∉ seen := by simpa using hseen
      rw [ih, List.nodup_cons]
      simp only [List.mem_cons, not_or, forall_eq_or_imp]
      constructor
      · rintro ⟨hnodup, hrest⟩
        exact ⟨⟨fun h => (hrest path h).1 rfl, hnodup⟩, hnew, fun other ho => (hrest other ho).2⟩
      · rintro ⟨⟨hfresh, hnodup⟩, -, hrest⟩
        exact ⟨hnodup, fun other ho => ⟨fun h => hfresh (h ▸ ho), hrest other ho⟩⟩

end Distinct

section Describes

variable {N B : Type}

/-- The bytes are those that the manifest describes: they inflate to `bytes`, the text of `value`,
and `value` is a form of the bundle. -/
structure Describes (platform : Platform N) (canonicalize : Json N → Except ArtifactError B)
    (count : B → ℕ) (manifest : ArtifactIntegrity) (compressed bytes : List ℕ) (value : Json N)
    (bundle : B) : Prop where
  format : manifest.format = artifactFormat
  formatVersion : manifest.formatVersion = 1
  compressedBytes : manifest.compressedBytes = compressed.length
  uncompressedBytes : manifest.uncompressedBytes = bytes.length
  fileCount : manifest.fileCount = count bundle
  safe : isSafeInteger manifest.compressedBytes ∧ isSafeInteger manifest.uncompressedBytes ∧
    isSafeInteger manifest.fileCount
  inflate : platform.zlib.inflate compressed = some bytes
  sha256 : Sha256.digest bytes = manifest.sha256
  parse : parseBytes platform.numbers bytes = some value
  canonicalize : canonicalize value = .ok bundle

/-- The limits that `validateLimits` lets pass. -/
structure ArtifactLimits.Valid (limits : ArtifactLimits) : Prop where
  compressed : isSafeInteger limits.maxCompressedBytes ∧ 0 < limits.maxCompressedBytes
  uncompressed : isSafeInteger limits.maxUncompressedBytes ∧ 0 < limits.maxUncompressedBytes
  files : isSafeInteger limits.maxFiles ∧ 0 < limits.maxFiles

theorem validateLimit_ok_iff {value : ℕ} {name : String} :
    validateLimit value name = .ok () ↔ isSafeInteger value ∧ 0 < value := by
  rw [validateLimit]
  cases isSafeInteger value with
  | false => simp [fail]
  | true =>
    by_cases h : value = 0
    · simp [h, fail]
    · simp [h, Nat.pos_of_ne_zero]

theorem validateLimits_ok_iff {limits : ArtifactLimits} :
    validateLimits limits = .ok () ↔ limits.Valid := by
  rw [validateLimits, bind_ok_iff]
  simp only [bind_ok_iff, validateLimit_ok_iff]
  constructor
  · rintro ⟨⟨⟩, hcompressed, ⟨⟩, huncompressed, hfiles⟩
    exact ⟨validateLimit_ok_iff.mp hcompressed, validateLimit_ok_iff.mp huncompressed, hfiles⟩
  · intro h
    exact ⟨(), validateLimit_ok_iff.mpr h.compressed, (), validateLimit_ok_iff.mpr h.uncompressed,
      h.files⟩

theorem isSafeInteger_of_le {m n : ℕ} (hn : isSafeInteger n = true) (hmn : m ≤ n) :
    isSafeInteger m = true := by
  rw [isSafeInteger, decide_eq_true_eq] at *
  omega

variable {N B : Type} {platform : Platform N}

theorem enforceFileCount_ok_iff {input : Json N} {limits : ArtifactLimits} {message : String} :
    enforceFileCount input limits message = .ok () ↔
      ∀ files, filesOf input = some files → files.length ≤ limits.maxFiles := by
  rw [enforceFileCount]
  cases filesOf input with
  | none => simp
  | some files =>
    by_cases h : files.length ≤ limits.maxFiles
    · simp [h]
    · simp [h, fail, Nat.not_le.mp h]

/-- The JSON of an object is read back. -/
theorem parseBytes_jsonBytes (numbers : Json.NumberText N) {members : List (Text × Json N)}
    (h : Json.IsJson (.object members)) :
    parseBytes numbers (jsonBytes numbers (.object members)) = some (.object members) := by
  obtain ⟨t, ht⟩ := Json.stringify_isSome numbers h
  have hfirst : t.head? ≠ some Utf8.byteOrderMark := by
    rw [Json.stringify] at ht
    cases ht
    rw [List.cons_append, List.head?_cons]
    decide
  rw [parseBytes, jsonBytes, ht, Option.getD_some, Utf8.decodeFatal_encode hfirst]
  exact Json.parse_stringify numbers h ht

/-- What is encoded is described by its manifest. -/
theorem describes_encoded {canonicalize : Json N → Except ArtifactError B} {count : B → ℕ}
    {value : Json N} {members : List (Text × Json N)} {bundle : B} {limits : ArtifactLimits}
    {encoded : EncodedArtifact}
    (hencoded : encoded =
      encodedFrom platform.zlib (jsonBytes platform.numbers value) (count bundle))
    (hvalid : limits.Valid) (hobject : value = .object members) (hjson : Json.IsJson value)
    (hcanonical : canonicalize value = .ok bundle)
    (huncompressed : encoded.uncompressedBytes.length ≤ limits.maxUncompressedBytes)
    (hcompressed : encoded.compressedBytes.length ≤ limits.maxCompressedBytes)
    (hfiles : count bundle ≤ limits.maxFiles) :
    Describes platform canonicalize count encoded.manifest encoded.compressedBytes
      encoded.uncompressedBytes value bundle := by
  subst hencoded hobject
  exact {
    format := rfl
    formatVersion := rfl
    compressedBytes := rfl
    uncompressedBytes := rfl
    fileCount := rfl
    safe := ⟨isSafeInteger_of_le hvalid.compressed.1 hcompressed,
      isSafeInteger_of_le hvalid.uncompressed.1 huncompressed,
      isSafeInteger_of_le hvalid.files.1 hfiles⟩
    inflate := platform.zlib.inflate_gzip _ (Utf8.encode_lt _)
    sha256 := rfl
    parse := parseBytes_jsonBytes platform.numbers hjson
    canonicalize := hcanonical }

end Describes

end AppBuilder.Artifacts
