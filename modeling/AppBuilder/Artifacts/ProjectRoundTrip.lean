import AppBuilder.Artifacts.PreviewRoundTrip
import AppBuilder.Artifacts.ProjectBundle

/-! The codec of project bundles: what it stores, which bundles it takes for the same, and that
others have other bytes. -/
namespace AppBuilder.Artifacts
open Agent Encoding

section Same

/-- The file with the separators and the case that are stored. -/
def ArtifactProjectFile.normalized (file : ArtifactProjectFile) : ArtifactProjectFile where
  path := slashes file.path
  content := file.content
  language := file.language
  generatedByRunId := file.generatedByRunId.map fun runId => runId.map Char.toLower

/-- Two objects with the same properties, each key once. -/
structure SameMap (entries entries' : List (Text × Text)) : Prop where
  nodup : (entries.map (·.1)).Nodup
  perm : entries.Perm entries'

/-- Bundles that differ in the order of files and keys, in separators and in the case of run ids. -/
structure SameBundle (bundle bundle' : ProjectArtifactBundleV1) : Prop where
  files : (bundle.files.map (·.normalized)).Perm (bundle'.files.map (·.normalized))
  dependencies : SameMap bundle.packageJson.dependencies bundle'.packageJson.dependencies
  devDependencies : SameMap bundle.packageJson.devDependencies bundle'.packageJson.devDependencies
  scripts : SameMap bundle.packageJson.scripts bundle'.packageJson.scripts

end Same

section RunIds

theorem toNat_le_toLower (c : Char) : c.toNat ≤ c.toLower.toNat := by
  unfold Char.toLower
  split_ifs with h
  · have hle : c.toNat ≤ 90 := UInt32.le_iff_toNat_le.mp h.2
    change c.val.toNat ≤ (c.val + ('a'.val - 'A'.val)).toNat
    rw [UInt32.toNat_add]
    have hval : c.val.toNat = c.toNat := rfl
    have hshift : ('a'.val - 'A'.val).toNat = 32 := by decide
    rw [hval, hshift]
    omega
  · exact Nat.le_refl _

theorem hexValue_of_toLower {c : Char} (h : (Json.hexValue c.toLower).isSome = true) :
    (Json.hexValue c).isSome = true := by
  have hsmall : c.toLower.toNat < 103 := by
    generalize c.toLower = d at h
    rw [Json.hexValue] at h
    split_ifs at h with hdigit hlower hupper
    · rw [Char.isDigit, Bool.and_eq_true] at hdigit
      have hle : d.toNat ≤ 57 := by simpa using UInt32.le_iff_toNat_le.mp (of_decide_eq_true hdigit.2)
      omega
    · have hle : d.toNat ≤ 102 := UInt32.le_iff_toNat_le.mp hlower.2
      omega
    · have hle : d.toNat ≤ 70 := UInt32.le_iff_toNat_le.mp hupper.2
      omega
    · cases h
  have hall : ∀ n < 103, (Json.hexValue (Char.ofNat n).toLower).isSome = true →
      (Json.hexValue (Char.ofNat n)).isSome = true := by decide
  have hchar := hall c.toNat ((toNat_le_toLower c).trans_lt hsmall)
  rw [Char.ofNat_toNat] at hchar
  exact hchar h

theorem isObjectIdText_of_lowered {runId : Text}
    (h : isObjectIdText (runId.map Char.toLower) = true) : isObjectIdText runId = true := by
  rw [isObjectIdText, Bool.and_eq_true, beq_iff_eq, List.all_eq_true] at h ⊢
  rw [List.length_map] at h
  exact ⟨h.1, fun c hc => hexValue_of_toLower (h.2 _ (List.mem_map_of_mem hc))⟩

end RunIds

section Files

variable {N : Type} {file stored : ArtifactProjectFile} {rawPath path : Text}

theorem canonicalPath_ok_iff :
    canonicalPath rawPath = .ok path ↔ path = slashes rawPath ∧ CanonicalPath path := by
  refine ⟨canonicalPath_spec, fun ⟨hpath, h⟩ => ?_⟩
  subst hpath
  have hkept : slashes (trim rawPath) = slashes rawPath := by rw [← trim_slashes, h.trimmed]
  have hlength : (trim rawPath).length = rawPath.length := by
    have hsame := congrArg List.length hkept
    rwa [slashes, slashes, List.length_map, List.length_map] at hsame
  have htrim : trim rawPath = rawPath := by
    have hright := List.rdropWhile_prefix isWhiteSpace (rawPath.dropWhile isWhiteSpace)
    have hleft := List.dropWhile_suffix (l := rawPath) isWhiteSpace
    have hfirst := hright.eq_of_length_le (by
      have hle := hleft.length_le
      rw [trim] at hlength
      omega)
    rw [trim, hfirst]
    refine hleft.eq_of_length_le ?_
    rw [← hfirst]
    exact hlength.ge
  have hfixed := canonicalPath_of_canonical h
  have hslashes : slashes (slashes rawPath) = slashes rawPath := slashes_eq_self not_mem_slashes
  have hne : rawPath.length ≠ 0 := by
    have hlong := List.length_pos_of_ne_nil (Path.ne_nil_of_plain h.plain)
    rw [slashes, List.length_map] at hlong
    omega
  unfold canonicalPath at hfixed ⊢
  rw [hslashes] at hfixed
  split_ifs at hfixed with hblank hrefused
  · cases hfixed
  · cases hfixed
  · rw [if_neg (by simp [hne, htrim]), if_neg hrefused]

theorem canonicalRunId_ok_iff {runId stored : Text} :
    canonicalRunId (.string runId : Json N) = .ok stored ↔
      stored = runId.map Char.toLower ∧ CanonicalRunId stored := by
  constructor
  · intro h
    refine ⟨?_, canonicalRunId_spec h⟩
    rw [canonicalRunId] at h
    split_ifs at h
    · cases h
      rfl
    · cases h
  · rintro ⟨rfl, h⟩
    rw [canonicalRunId, if_pos (isObjectIdText_of_lowered h.objectId)]

theorem optionalRunId_ok_iff {given stored : Option Text} :
    optionalRunId ((given.map (jsonText : Text → Json N)).getD .undefined) = .ok stored ↔
      stored = (given.map fun runId => runId.map Char.toLower) ∧
        ∀ runId, stored = some runId → CanonicalRunId runId := by
  cases given with
  | none =>
    change Except.ok none = Except.ok stored ↔ _
    rw [Except.ok.injEq]
    exact ⟨fun h => h ▸ ⟨rfl, fun _ hrunId => (nomatch hrunId)⟩, fun h => h.1.symm⟩
  | some given =>
    change (canonicalRunId (.string given : Json N)).map some = .ok stored ↔ _
    cases hid : canonicalRunId (.string given : Json N) with
    | error e =>
      refine iff_of_false (fun h => (nomatch h)) fun ⟨hstored, hcanonical⟩ => ?_
      have hok := (@canonicalRunId_ok_iff N given _).mpr ⟨rfl, hcanonical _ hstored⟩
      rw [hid] at hok
      cases hok
    | ok found =>
      obtain ⟨rfl, hcanonical⟩ := canonicalRunId_ok_iff.mp hid
      change Except.ok (some _) = Except.ok stored ↔ _
      rw [Except.ok.injEq]
      constructor
      · rintro rfl
        exact ⟨rfl, fun runId hrunId => Option.some.inj hrunId ▸ hcanonical⟩
      · exact fun h => h.1.symm

theorem canonicalFile_eq : canonicalFile (file.toJson : Json N) =
    if file.content.contains NUL then fail .invalidBundle "Artifact file content must be text"
    else match languageOf (text (languageName file.language)) with
      | none => fail .invalidBundle "Artifact file language is unsupported"
      | some language => do
        let path ← pathOf (.string file.path : Json N)
        let generatedByRunId ← optionalRunId
          ((file.generatedByRunId.map (jsonText : Text → Json N)).getD .undefined)
        return { path, content := file.content, language, generatedByRunId } := by
  have hid : property ([(text "path", Json.string file.path), (text "content", .string file.content),
      (text "language", .string (text (languageName file.language)))] ++
      (file.generatedByRunId.map fun runId =>
        (text "generatedByRunId", (jsonText runId : Json N))).toList) "generatedByRunId" =
      (file.generatedByRunId.map jsonText).getD .undefined := by
    cases file.generatedByRunId with
    | none => rfl
    | some runId => rfl
  rw [← hid]
  rfl

theorem canonicalFile_ok_iff :
    canonicalFile (file.toJson : Json N) = .ok stored ↔
      stored = file.normalized ∧ file.normalized.Canonical := by
  rw [canonicalFile_eq, languageOf_languageName]
  by_cases hnul : NUL ∈ file.content
  · rw [if_pos (by simpa using hnul)]
    exact iff_of_false (fun h => by cases h) fun h => h.2.content hnul
  · rw [if_neg (by simpa using hnul)]
    dsimp only
    rw [bind_ok_iff]
    simp only [bind_ok_iff]
    constructor
    · rintro ⟨path, hpath, runId, hrunId, hstored⟩
      obtain ⟨rfl, hcanonical⟩ := canonicalPath_ok_iff.mp hpath
      obtain ⟨rfl, hids⟩ := optionalRunId_ok_iff.mp hrunId
      cases hstored
      exact ⟨rfl, hcanonical, hnul, hids⟩
    · rintro ⟨rfl, hcanonical⟩
      exact ⟨_, canonicalPath_ok_iff.mpr ⟨rfl, hcanonical.path⟩, _,
        optionalRunId_ok_iff.mpr ⟨rfl, hcanonical.runId⟩, rfl⟩

end Files

section Maps

variable {N : Type} {entries entries' stored : List (Text × Text)} {name : String}

def Filled (entries : List (Text × Text)) : Prop :=
  ∀ entry ∈ entries, (trim entry.1).length ≠ 0 ∧ (trim entry.2).length ≠ 0

theorem canonicalMap_ok_iff : canonicalMap (jsonMap entries : Json N) name = .ok stored ↔
    Filled entries ∧ stored = fromEntries (sortByText (·.1) entries) := by
  have hread : ∀ found, (entries.map fun entry => (entry.1, (jsonText entry.2 : Json N))).mapM
      entryText = some found ↔ Filled entries ∧ found = entries := by
    intro found
    rw [mapM_entryText_iff]
    have hinjective : Function.Injective
        fun entry : Text × Text => (entry.1, (jsonText entry.2 : Json N)) := by
      rintro ⟨key, value⟩ ⟨key', value'⟩ h
      simpa [jsonText] using h
    constructor
    · rintro ⟨hsame, hfilled⟩
      cases List.map_injective_iff.mpr hinjective hsame
      exact ⟨hfilled, rfl⟩
    · rintro ⟨hfilled, rfl⟩
      exact ⟨rfl, hfilled⟩
  unfold canonicalMap jsonMap
  dsimp only
  cases hfound : (entries.map fun entry => (entry.1, (jsonText entry.2 : Json N))).mapM
      entryText with
  | none =>
    refine iff_of_false (fun h => by cases h) fun h => ?_
    rw [(hread entries).mpr ⟨h.1, rfl⟩] at hfound
    cases hfound
  | some found =>
    obtain ⟨hfilled, rfl⟩ := (hread found).mp hfound
    dsimp only
    rw [Except.ok.injEq]
    exact ⟨fun h => ⟨hfilled, h.symm⟩, fun h => h.2.symm⟩

theorem SameMap.canonicalMap (h : SameMap entries entries')
    (hstored : canonicalMap (jsonMap entries : Json N) name = .ok stored) :
    canonicalMap (jsonMap entries' : Json N) name = .ok stored := by
  obtain ⟨hfilled, rfl⟩ := canonicalMap_ok_iff.mp hstored
  refine canonicalMap_ok_iff.mpr ⟨fun entry he => hfilled entry (h.perm.mem_iff.mpr he), ?_⟩
  rw [sortByText_congr _ h.perm h.nodup]

/-- The order of the keys of a canonical map is that of its key set. -/
theorem keys_eq (h : CanonicalMap entries) (h' : CanonicalMap entries')
    (hkeys : ∀ key, key ∈ entries.map (·.1) ↔ key ∈ entries'.map (·.1)) :
    entries.map (·.1) = entries'.map (·.1) := by
  have hperm : (entries.map (·.1)).Perm (entries'.map (·.1)) :=
    (List.perm_ext_iff_of_nodup h.settled.nodup h'.settled.nodup).mpr hkeys
  refine @List.Perm.eq_of_pairwise _ (fun a b : Text => settledBefore a b = true) _ _ ?_
    (List.pairwise_map.mpr h.settled) (List.pairwise_map.mpr h'.settled) hperm
  intro a b _ _ hab hba
  rw [settledBefore_asymm hab] at hba
  cases hba

end Maps

section Bundles

variable {N : Type} [DecidableEq N] {one : N} {bundle bundle' canonical : ProjectArtifactBundleV1}

theorem canonicalPackageJson_ok_iff {packageJson stored : ArtifactPackageJson} :
    canonicalPackageJson (packageJson.toJson : Json N) = .ok stored ↔
      canonicalMap (jsonMap packageJson.dependencies : Json N) "dependencies" =
          .ok stored.dependencies ∧
        canonicalMap (jsonMap packageJson.devDependencies : Json N) "devDependencies" =
          .ok stored.devDependencies ∧
        canonicalMap (jsonMap packageJson.scripts : Json N) "scripts" = .ok stored.scripts := by
  have hread : canonicalPackageJson (packageJson.toJson : Json N) = (do
      let dependencies ← canonicalMap (jsonMap packageJson.dependencies : Json N) "dependencies"
      let devDependencies ←
        canonicalMap (jsonMap packageJson.devDependencies : Json N) "devDependencies"
      let scripts ← canonicalMap (jsonMap packageJson.scripts : Json N) "scripts"
      return { dependencies, devDependencies, scripts }) := rfl
  rw [hread]
  simp only [bind_ok_iff]
  constructor
  · rintro ⟨_, hdependencies, _, hdevDependencies, _, hscripts, hstored⟩
    cases hstored
    exact ⟨hdependencies, hdevDependencies, hscripts⟩
  · rintro ⟨hdependencies, hdevDependencies, hscripts⟩
    exact ⟨_, hdependencies, _, hdevDependencies, _, hscripts, rfl⟩

/-- What the canonical form of a bundle is, and when it has one. -/
theorem canonicalizeBundle_ok_iff :
    canonicalizeBundle one (bundle.toJson one) = .ok canonical ↔
      (∀ file ∈ bundle.files, file.normalized.Canonical) ∧
        ((bundle.files.map (·.normalized)).map (·.path)).Nodup ∧
        canonical.files = sortByText (·.path) (bundle.files.map (·.normalized)) ∧
        canonicalPackageJson (bundle.packageJson.toJson : Json N) = .ok canonical.packageJson := by
  have hversion : isNumber (.number one : Json N) one = true := isNumber_iff.mpr rfl
  have hread : canonicalizeBundle one (bundle.toJson one) = (do
      let files ← (bundle.files.map (·.toJson : ArtifactProjectFile → Json N)).mapM canonicalFile
      refuseDuplicates "Duplicate normalized artifact path: " [] (files.map (·.path))
      let packageJson ← canonicalPackageJson (bundle.packageJson.toJson : Json N)
      return { files := sortByText (·.path) files, packageJson }) := by
    have hguard : ¬ (!isNumber (.number one : Json N) one) = true := by
      rw [hversion]
      decide
    exact if_neg hguard
  have hfiles : ∀ files,
      (bundle.files.map (·.toJson : ArtifactProjectFile → Json N)).mapM canonicalFile = .ok files ↔
        (∀ file ∈ bundle.files, file.normalized.Canonical) ∧
          files = bundle.files.map (·.normalized) := by
    intro files
    rw [mapM_ok_iff, List.forall₂_map_left_iff]
    simp only [canonicalFile_ok_iff]
    constructor
    · intro h
      generalize bundle.files = given at h ⊢
      induction h with
      | nil => exact ⟨fun _ hfile => (nomatch hfile), rfl⟩
      | cons hfirst _ ih =>
        obtain ⟨hcanonical, rfl⟩ := ih
        rw [hfirst.1]
        exact ⟨List.forall_mem_cons.mpr ⟨hfirst.2, hcanonical⟩, rfl⟩
    · rintro ⟨hcanonical, rfl⟩
      rw [List.forall₂_map_right_iff, List.forall₂_same]
      exact fun file hfile => ⟨rfl, hcanonical file hfile⟩
  rw [hread]
  simp only [bind_ok_iff, hfiles]
  constructor
  · rintro ⟨files, ⟨hcanonical, rfl⟩, ⟨⟩, hdistinct, packageJson, hpackage, hstored⟩
    cases hstored
    exact ⟨hcanonical, (refuseDuplicates_ok_iff.mp hdistinct).1, rfl, hpackage⟩
  · rintro ⟨hcanonical, hnodup, hsorted, hpackage⟩
    refine ⟨_, ⟨hcanonical, rfl⟩, (), refuseDuplicates_ok_iff.mpr
      ⟨hnodup, fun _ _ => List.not_mem_nil⟩, canonical.packageJson, hpackage, ?_⟩
    rw [← hsorted]
    rfl

theorem SameBundle.canonicalize (h : SameBundle bundle bundle')
    (hcanonical : canonicalizeBundle one (bundle.toJson one) = .ok canonical) :
    canonicalizeBundle one (bundle'.toJson one) = .ok canonical := by
  obtain ⟨hfiles, hnodup, hsorted, hpackage⟩ := canonicalizeBundle_ok_iff.mp hcanonical
  obtain ⟨hdependencies, hdevDependencies, hscripts⟩ := canonicalPackageJson_ok_iff.mp hpackage
  refine canonicalizeBundle_ok_iff.mpr ⟨fun file hfile => ?_, ?_, ?_, ?_⟩
  · have hmem := h.files.mem_iff.mpr (List.mem_map_of_mem hfile)
    obtain ⟨given, hgiven, hsame⟩ := List.mem_map.mp hmem
    rw [← hsame]
    exact hfiles given hgiven
  · exact (h.files.map _).nodup_iff.mp hnodup
  · rw [hsorted, sortByText_congr _ h.files hnodup]
  · exact canonicalPackageJson_ok_iff.mpr ⟨h.dependencies.canonicalMap hdependencies,
      h.devDependencies.canonicalMap hdevDependencies, h.scripts.canonicalMap hscripts⟩

variable {platform : Platform N} {limits limits' : ArtifactLimits}
  {encoded encoded' : EncodedArtifact}

theorem SameBundle.encode (h : SameBundle bundle bundle')
    (hencoded : encodeProjectArtifact platform bundle limits = .ok encoded) :
    encodeProjectArtifact platform bundle' limits = .ok encoded := by
  obtain ⟨⟨⟩, hlimits, hencoded⟩ := bind_ok_iff.mp hencoded
  obtain ⟨⟨⟩, hcount, hencoded⟩ := bind_ok_iff.mp hencoded
  obtain ⟨canonical, hcanonical, hencoded⟩ := bind_ok_iff.mp hencoded
  have hlength : bundle'.files.length = bundle.files.length := by
    have hsame := h.files.length_eq
    rw [List.length_map, List.length_map] at hsame
    exact hsame.symm
  have hcount' : enforceFileCount (bundle'.toJson platform.one) limits projectFileCount = .ok () := by
    rw [enforceFileCount_ok_iff] at hcount ⊢
    rintro files ⟨⟩
    have hle := hcount _ rfl
    rw [List.length_map] at hle ⊢
    omega
  exact bind_ok_iff.mpr ⟨(), hlimits, bind_ok_iff.mpr ⟨(), hcount', bind_ok_iff.mpr
    ⟨canonical, h.canonicalize hcanonical, hencoded⟩⟩⟩

/-- A bundle whose canonical form is within the limits is encoded. -/
theorem encodeProjectArtifact_eq (hvalid : limits.Valid)
    (hcount : bundle.files.length ≤ limits.maxFiles)
    (hcanonical : canonicalizeBundle platform.one (bundle.toJson platform.one) = .ok canonical)
    (huncompressed : (jsonBytes platform.numbers (canonical.toJson platform.one)).length ≤
      limits.maxUncompressedBytes)
    (hcompressed : (platform.zlib.gzip (jsonBytes platform.numbers
      (canonical.toJson platform.one))).length ≤ limits.maxCompressedBytes) :
    encodeProjectArtifact platform bundle limits =
      .ok (encodedFrom platform.zlib (jsonBytes platform.numbers (canonical.toJson platform.one))
        canonical.files.length) := by
  have hfiles : enforceFileCount (bundle.toJson platform.one) limits projectFileCount = .ok () := by
    refine enforceFileCount_ok_iff.mpr ?_
    rintro files ⟨⟩
    rw [List.length_map]
    exact hcount
  refine bind_ok_iff.mpr ⟨(), validateLimits_ok_iff.mpr hvalid, bind_ok_iff.mpr ⟨(), hfiles,
    bind_ok_iff.mpr ⟨canonical, hcanonical, ?_⟩⟩⟩
  exact (if_neg (Nat.not_lt.mpr huncompressed)).trans (if_neg (Nat.not_lt.mpr hcompressed))

/-- The bytes of two bundles tell their canonical forms. -/
theorem canonical_eq_of_bytes {canonical' : ProjectArtifactBundleV1}
    (h : canonical.Canonical) (h' : canonical'.Canonical)
    (hbytes : jsonBytes platform.numbers (canonical.toJson platform.one) =
      jsonBytes platform.numbers (canonical'.toJson platform.one)) : canonical = canonical' := by
  have hread := parseBytes_jsonBytes platform.numbers
    (isJson_projectBundle platform.one h.packageJson)
  have hread' := parseBytes_jsonBytes platform.numbers
    (isJson_projectBundle platform.one h'.packageJson)
  have hvalue : canonical.toJson platform.one = canonical'.toJson platform.one := by
    have hsome := congrArg (parseBytes platform.numbers) hbytes
    exact Option.some.inj (hread.symm.trans (hsome.trans hread'))
  have hform := @canonicalizeBundle_canonical _ _ platform.one _ h
  rw [hvalue, canonicalizeBundle_canonical h'] at hform
  exact (Except.ok.inj hform).symm

end Bundles

section Codec

variable {N : Type} [DecidableEq N]

/-- What is encoded is read back in canonical form. Bundles that differ in spelling alone have the
same bytes and digest, and other bundles have other bytes. What is accepted is canonical, and its
keys are in the order of the set of its keys. -/
theorem project_codec (platform : Platform N) :
    (∀ (limits : ArtifactLimits) (bundle : ProjectArtifactBundleV1) (encoded : EncodedArtifact),
      encodeProjectArtifact platform bundle limits = .ok encoded →
      ∃ canonical, canonicalizeBundle platform.one (bundle.toJson platform.one) = .ok canonical ∧
        canonical.Canonical ∧
        decodeProjectArtifact platform encoded.compressedBytes encoded.manifest limits =
          .ok canonical ∧
        ∀ bundle', SameBundle bundle bundle' →
          encodeProjectArtifact platform bundle' limits = .ok encoded) ∧
    (∀ (limits limits' : ArtifactLimits) (bundle bundle' : ProjectArtifactBundleV1)
        (encoded encoded' : EncodedArtifact),
      encodeProjectArtifact platform bundle limits = .ok encoded →
      encodeProjectArtifact platform bundle' limits' = .ok encoded' →
      canonicalizeBundle platform.one (bundle.toJson platform.one) ≠
        canonicalizeBundle platform.one (bundle'.toJson platform.one) →
      encoded.uncompressedBytes ≠ encoded'.uncompressedBytes ∧
        encoded.compressedBytes ≠ encoded'.compressedBytes) ∧
    (∀ (limits : ArtifactLimits) (manifest : ArtifactIntegrity) (compressed : List ℕ)
        (bundle : ProjectArtifactBundleV1),
      decodeProjectArtifact platform compressed manifest limits = .ok bundle → bundle.Canonical) ∧
    ∀ entries entries' : List (Text × Text), CanonicalMap entries → CanonicalMap entries' →
      (∀ key, key ∈ entries.map (·.1) ↔ key ∈ entries'.map (·.1)) →
      entries.map (·.1) = entries'.map (·.1) := by
  refine ⟨?_, ?_, ?_, fun entries entries' h h' => keys_eq h h'⟩
  · intro limits bundle encoded hencoded
    obtain ⟨canonical, hcanonical, -, -, -, hdecoded⟩ := encodeProjectArtifact_spec hencoded
    exact ⟨canonical, hcanonical, (canonicalizeBundle_spec hcanonical).1, hdecoded,
      fun bundle' h => h.encode hencoded⟩
  · intro limits limits' bundle bundle' encoded encoded' hencoded hencoded' hdiffer
    obtain ⟨canonical, hcanonical, hbytes, -, hdescribes, -⟩ := encodeProjectArtifact_spec hencoded
    obtain ⟨canonical', hcanonical', hbytes', -, hdescribes', -⟩ :=
      encodeProjectArtifact_spec hencoded'
    have huncompressed : encoded.uncompressedBytes ≠ encoded'.uncompressedBytes := by
      intro hsame
      rw [hbytes, hbytes'] at hsame
      refine hdiffer ?_
      rw [hcanonical, hcanonical', canonical_eq_of_bytes (canonicalizeBundle_spec hcanonical).1
        (canonicalizeBundle_spec hcanonical').1 hsame]
    refine ⟨huncompressed, fun hsame => huncompressed ?_⟩
    have hinflate := hdescribes.inflate
    rw [hsame, hdescribes'.inflate] at hinflate
    exact (Option.some.inj hinflate).symm
  · exact fun limits manifest compressed bundle hdecoded => (decodeProjectArtifact_spec hdecoded).1

end Codec

section Sample

/-- A project of one file, written with a backslash, of a run in capital letters. -/
def sampleProject : ProjectArtifactBundleV1 where
  files := [⟨text "src\\App.tsx", text "hi", .tsx, some (text "64B7F0C2D3E4F5A6B7C8D9E0")⟩]
  packageJson := ⟨[(text "react", text "^18.2.0")], [], []⟩

def storedProject : ProjectArtifactBundleV1 where
  files := [⟨text "src/App.tsx", text "hi", .tsx, some (text "64b7f0c2d3e4f5a6b7c8d9e0")⟩]
  packageJson := sampleProject.packageJson

def sampleProjectBytes : List ℕ := jsonBytes Json.rationals (storedProject.toJson (1 : ℚ))

/-- What `gzip` makes of the text of the project. -/
def sampleProjectStream : List ℕ :=
  [31, 139, 8, 0, 0, 0, 0, 0, 2, 3, 85, 142, 189, 14, 130, 48, 20, 133, 223, 229, 206, 4, 1, 17,
   144, 77, 227, 162, 163, 171, 209, 164, 220, 94, 160, 145, 148, 166, 45, 68, 211, 240, 238, 94,
   116, 114, 60, 127, 249, 78, 128, 153, 172, 83, 163, 134, 58, 141, 160, 85, 3, 57, 168, 111, 1,
   140, 240, 61, 212, 224, 44, 110, 14, 198, 196, 222, 189, 32, 2, 28, 181, 39, 237, 217, 239, 21,
   203, 65, 232, 110, 18, 29, 177, 254, 229, 29, 105, 178, 194, 147, 60, 190, 175, 147, 62, 75,
   14, 138, 188, 41, 219, 4, 51, 185, 165, 188, 221, 137, 162, 41, 177, 146, 123, 74, 96, 185, 71,
   12, 193, 39, 239, 47, 110, 197, 7, 144, 100, 72, 75, 210, 168, 214, 19, 1, 44, 9, 92, 97, 143,
   180, 138, 179, 152, 39, 17, 87, 230, 211, 127, 139, 77, 135, 86, 25, 255, 21, 203, 242, 1, 12,
   170, 202, 102, 209, 0, 0, 0]

theorem sampleProject_print_one : Json.rationals.print 1 = ['1'] := by decide

def sampleProjectPlatform : Platform ℚ where
  numbers := Json.rationals
  one := 1
  print_one := sampleProject_print_one
  zlib := .ofTable [(sampleProjectBytes, sampleProjectStream)] (by decide) (by decide)

theorem sample_project_codec : ∃ encoded canonical,
    encodeProjectArtifact sampleProjectPlatform sampleProject sampleLimits = .ok encoded ∧
    canonicalizeBundle sampleProjectPlatform.one
      (sampleProject.toJson sampleProjectPlatform.one) = .ok canonical ∧
    canonical.Canonical ∧
    decodeProjectArtifact sampleProjectPlatform encoded.compressedBytes encoded.manifest
      sampleLimits = .ok canonical := by
  have hstored : canonicalizeBundle sampleProjectPlatform.one
      (sampleProject.toJson sampleProjectPlatform.one) = .ok storedProject := by decide
  have hencoded := @encodeProjectArtifact_eq _ _ sampleProject _ sampleProjectPlatform sampleLimits
    ⟨by decide, by decide, by decide⟩ (by decide) hstored (by decide +kernel) (by decide +kernel)
  obtain ⟨canonical, hcanonical, hform, hdecoded, -⟩ :=
    (project_codec sampleProjectPlatform).1 sampleLimits sampleProject _ hencoded
  exact ⟨_, canonical, hencoded, hcanonical, hform, hdecoded⟩

end Sample

end AppBuilder.Artifacts
