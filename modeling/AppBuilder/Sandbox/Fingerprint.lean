import AppBuilder.Encoding.Sha256
import AppBuilder.Sandbox.Spec
import Mathlib.Data.List.Sort

/-! Provider fingerprints of the spec that was requested and of the one rebuilt from the lease. -/
namespace AppBuilder.Sandbox
open Agent Encoding

def Property.members {α N : Type} (key : String) (json : α → Json N) :
    Property α → List (Text × Json N)
  | .absent => []
  | .undefined => [(text key, .undefined)]
  | .value a => [(text key, json a)]

def jsonString {N : Type} (s : String) : Json N := .string (text s)

def jsonId {N : Type} (id : ObjectId) : Json N := jsonString (toString id)

def ResourceKey.name : ResourceKey → String
  | .cpu => "cpu"
  | .memoryMiB => "memoryMiB"
  | .diskMiB => "diskMiB"

def ResourceProfile.value (profile : ResourceProfile) : ResourceKey → ℚ
  | .cpu => profile.cpu
  | .memoryMiB => profile.memoryMiB
  | .diskMiB => profile.diskMiB

def ResourceObject.members (resources : ResourceObject) : List (Text × Json ℚ) :=
  resources.keys.map fun key => (text key.name, .number (resources.value key))

def SandboxOwnership.members (ownership : SandboxOwnership) : List (Text × Json ℚ) :=
  [(text "workspaceId", jsonId ownership.workspaceId),
    (text "projectId", jsonId ownership.projectId),
    (text "branchId", jsonId ownership.branchId)] ++
  ownership.runId.members "runId" jsonId ++ ownership.snapshotId.members "snapshotId" jsonId ++
  [(text "purpose", jsonString ownership.purpose.name)]

def SandboxLifecycle.members (lifecycle : SandboxLifecycle) : List (Text × Json ℚ) :=
  (text "leaseSeconds", .number lifecycle.leaseSeconds) ::
    lifecycle.autoStopSeconds.members "autoStopSeconds" (fun n : ℕ => Json.number (n : ℚ)) ++
    [(text "autoDeleteSeconds", .number lifecycle.autoDeleteSeconds)]

/-- A spec as the object that the providers turn into text. -/
def SandboxSpec.json (spec : SandboxSpec) : Json ℚ :=
  .object [
    (text "provisioningKey", jsonString spec.provisioningKey),
    (text "ownership", .object spec.ownership.members),
    (text "runtime", .object [(text "image", jsonString spec.runtime.image),
      (text "workingDirectory", jsonString spec.runtime.workingDirectory)]),
    (text "resources", .object spec.resources.members),
    (text "networkPolicy", .object [
      (text "defaultAction", jsonString spec.networkPolicy.defaultAction.name),
      (text "allowedDomains", .array (spec.networkPolicy.allowedDomains.map jsonString)),
      (text "allowedCidrs", .array (spec.networkPolicy.allowedCidrs.map jsonString))]),
    (text "lifecycle", .object spec.lifecycle.members),
    (text "labels", .object (spec.labels.map fun label => (text label.1, jsonString label.2)))]

section Texts

/-! `number` prints a number, and `before` is `left.localeCompare(right) <= 0`. -/

variable (number : ℚ → Text) (before : Text → Text → Bool)

mutual

/-- `stableJson` of `DaytonaProvider.ts`; `undefined` has no text of its own. -/
def stableJson : Json ℚ → Option Text
  | .array elements => some ('[' :: commas (stableElements elements) ++ [']'])
  | .object members =>
    let sorted := (stableMembers members).insertionSort fun left right => before left.1 right.1
    some ('{' :: commas (sorted.map fun entry => quote entry.1 ++ ':' :: entry.2) ++ ['}'])
  | .undefined => none
  | .null => Json.stringify number .null
  | .bool b => Json.stringify number (.bool b)
  | .number n => Json.stringify number (.number n)
  | .string s => Json.stringify number (.string s)

/-- `join` writes nothing for an `undefined`. -/
def stableElements : List (Json ℚ) → List Text
  | [] => []
  | x :: xs => (stableJson x).getD [] :: stableElements xs

/-- The template literal writes an `undefined` out. -/
def stableMembers : List (Text × Json ℚ) → List (Text × Text)
  | [] => []
  | (key, value) :: rest => (key, (stableJson value).getD (text "undefined")) :: stableMembers rest

end

/-- What `specHash` digests. -/
def hashedText (spec : SandboxSpec) : Text :=
  (stableJson number before spec.json).getD (text "undefined")

inductive Fingerprinting where
  | daytona
  | localProcess
  deriving DecidableEq

/-- `specHash` of the one provider, `fingerprint` of the other. -/
def Fingerprinting.fingerprint (spec : SandboxSpec) : Fingerprinting → Text
  | .daytona => Sha256.hex (hashedText number before spec)
  | .localProcess => (Json.stringify number spec.json).getD (text "undefined")

/-- `create` finds a resource of its provisioning key, made with this fingerprint. -/
def Fingerprinting.createAgain (provider : Fingerprinting) (fingerprint : Text) (ref : SandboxRef)
    (spec : SandboxSpec) : Except SandboxError SandboxRef :=
  if fingerprint ≠ provider.fingerprint number before spec then
    .error ⟨.ownershipMismatch, "Provisioning key belongs to a different Sandbox specification",
      false, none⟩
  else .ok ref

end Texts

section Lengths

variable {number : ℚ → Text} {before : Text → Text → Bool}

def stableText (number : ℚ → Text) (before : Text → Text → Bool) (value : Json ℚ) : Text :=
  (stableJson number before value).getD (text "undefined")

theorem stableMembers_eq (members : List (Text × Json ℚ)) :
    stableMembers number before members =
      members.map fun m => (m.1, stableText number before m.2) := by
  induction members with
  | nil => rfl
  | cons m members ih =>
    rw [stableMembers, ih]
    rfl

/-- The length of an object does not depend on the order of its properties. -/
theorem length_stableText_object {members : List (Text × Json ℚ)} (h : members ≠ []) :
    (stableText number before (.object members)).length = 1 +
      (members.map fun m => (quote m.1).length + 2 + (stableText number before m.2).length).sum := by
  have hlen := length_commas_perm ((List.perm_insertionSort
    (fun left right => before left.1 right.1 = true) (stableMembers number before members)).map
      fun entry => quote entry.1 ++ ':' :: entry.2)
  have hlines : (stableMembers number before members).map
      (fun entry => quote entry.1 ++ ':' :: entry.2) =
        members.map fun m => quote m.1 ++ ':' :: stableText number before m.2 := by
    rw [stableMembers_eq, List.map_map]
    rfl
  have hsum := length_commas (members.map fun m => quote m.1 ++ ':' :: stableText number before m.2)
    (by simpa using h)
  have hterm : ∀ m : Text × Json ℚ,
      (quote m.1 ++ ':' :: stableText number before m.2).length + 1 =
        (quote m.1).length + 2 + (stableText number before m.2).length := by
    intro m
    simp only [List.length_append, List.length_cons]
    omega
  rw [List.map_map, Function.comp_def, List.map_congr_left fun m _ => hterm m] at hsum
  rw [hlines] at hlen
  rw [stableText, stableJson, Option.getD_some]
  simp only [List.length_cons, List.length_append, List.length_nil]
  omega

/-- A lease that `createBuildSandbox` has reserved. -/
def SandboxLease.ReservedFor (lease : SandboxLease) (config : SandboxConfig)
    (input : CreateBuildSandboxInput) : Prop :=
  ∃ requestedAt reservedAt,
    lease.toSandboxReservationRecord = reservationRecord config input requestedAt reservedAt

/-- What the rebuilt spec of a reserved lease is: the requested one, with the two properties that
were left out written as `undefined`, and the resources in the order of the schema. -/
theorem SandboxLease.ReservedFor.rebuiltSpec {lease : SandboxLease} {config : SandboxConfig}
    {input : CreateBuildSandboxInput} (h : lease.ReservedFor config input) :
    lease.rebuiltSpec = { buildSpec config input with
      ownership := { (buildSpec config input).ownership with snapshotId := .undefined }
      lifecycle := { (buildSpec config input).lifecycle with autoStopSeconds := .undefined }
      resources := input.resources.toResourceProfile.object } := by
  obtain ⟨requestedAt, reservedAt, h⟩ := h
  simp only [SandboxLease.rebuiltSpec, SandboxLease.ownership, h]
  rfl

private theorem length_resources (number : ℚ → Text) (before : Text → Text → Bool) (resources : ResourceObject) :
    (stableText number before (.object resources.members)).length =
      (stableText number before (.object resources.toResourceProfile.object.members)).length := by
  have hne : resources.keys ≠ [] := fun he => by simpa [he] using resources.complete.length_eq
  have hperm := resources.complete.map fun key => (text key.name, Json.number (resources.value key))
  rw [length_stableText_object (by simpa [ResourceObject.members] using hne),
    length_stableText_object (by simp [ResourceObject.members, ResourceProfile.object])]
  exact congrArg (1 + ·) ((hperm.map _).sum_nat)

private theorem length_undefined : (stableText number before .undefined).length = 9 := rfl

private theorem length_ownership (number : ℚ → Text) (before : Text → Text → Bool)
    (ownership : SandboxOwnership) (h : ownership.snapshotId = .absent) :
    (stableText number before (.object
      { ownership with snapshotId := .undefined : SandboxOwnership }.members)).length =
        (stableText number before (.object ownership.members)).length + 23 := by
  have hquote : (quote (text "snapshotId")).length = 12 := by decide
  rw [length_stableText_object (by simp [SandboxOwnership.members]),
    length_stableText_object (by simp [SandboxOwnership.members])]
  simp only [SandboxOwnership.members, h, Property.members, List.map_append, List.sum_append,
    List.map_cons, List.map_nil, List.sum_cons, List.sum_nil, hquote, length_undefined]
  omega

private theorem length_lifecycle (number : ℚ → Text) (before : Text → Text → Bool)
    (lifecycle : SandboxLifecycle) (h : lifecycle.autoStopSeconds = .absent) :
    (stableText number before (.object
      { lifecycle with autoStopSeconds := .undefined : SandboxLifecycle }.members)).length =
        (stableText number before (.object lifecycle.members)).length + 28 := by
  have hquote : (quote (text "autoStopSeconds")).length = 17 := by decide
  rw [length_stableText_object (by simp [SandboxLifecycle.members]),
    length_stableText_object (by simp [SandboxLifecycle.members])]
  simp only [SandboxLifecycle.members, h, Property.members, List.map_append, List.sum_append,
    List.map_cons, List.map_nil, List.sum_cons, List.sum_nil, hquote, length_undefined]
  omega

/-- `stableJson` writes the two `undefined` properties out. -/
theorem length_hashedText (number : ℚ → Text) (before : Text → Text → Bool) {lease : SandboxLease} {config : SandboxConfig}
    {input : CreateBuildSandboxInput} (h : lease.ReservedFor config input) :
    (hashedText number before lease.rebuiltSpec).length =
      (hashedText number before (buildSpec config input)).length + 51 := by
  have hown := length_ownership number before (buildSpec config input).ownership rfl
  have hlife := length_lifecycle number before (buildSpec config input).lifecycle rfl
  have hres := length_resources number before input.resources
  rw [h.rebuiltSpec]
  show (stableText number before _).length = (stableText number before _).length + 51
  rw [SandboxSpec.json, SandboxSpec.json, length_stableText_object (List.cons_ne_nil _ _),
    length_stableText_object (List.cons_ne_nil _ _)]
  simp only [List.map_cons, List.map_nil, List.sum_cons, List.sum_nil, hown, hlife]
  have hbuilt : (buildSpec config input).resources = input.resources := rfl
  rw [hbuilt]
  omega

end Lengths

section LocalText

variable {number : ℚ → Text}

/-- One property of a resource profile. -/
private def resourceLine (number : ℚ → Text) (profile : ResourceProfile) (key : ResourceKey) : Text :=
  quote (text key.name) ++ ':' :: number (profile.value key)

private theorem stringify_resources (resources : ResourceObject) :
    Json.stringify number (.object resources.members) =
      some ('{' :: commas (resources.keys.map (resourceLine number resources.toResourceProfile)) ++
        ['}']) := by
  have hmembers : ∀ keys : List ResourceKey, Json.stringifyMembers number
      (keys.map fun key => (text key.name, .number (resources.value key))) =
        keys.map (resourceLine number resources.toResourceProfile) := by
    intro keys
    induction keys with
    | nil => rfl
    | cons key keys ih =>
      rw [List.map_cons, Json.stringifyMembers, ih]
      rfl
  rw [Json.stringify, ResourceObject.members, hmembers]

/-- Two orders of the three properties give two texts. -/
private theorem keys_of_commas (profile : ResourceProfile) {keys : List ResourceKey}
    (hk : keys.Perm [.cpu, .memoryMiB, .diskMiB])
    (h : commas (keys.map (resourceLine number profile)) =
      commas ([.cpu, .memoryMiB, .diskMiB].map (resourceLine number profile))) :
    keys = [.cpu, .memoryMiB, .diskMiB] := by
  have hlen := hk.length_eq
  match keys, hlen with
  | [a, b, c], _ =>
    have hquote : quote (text "cpu") = '"' :: 'c' :: ['p', 'u', '"'] ∧
        quote (text "memoryMiB") = '"' :: 'm' :: text "emoryMiB" ++ ['"'] ∧
        quote (text "diskMiB") = '"' :: 'd' :: text "iskMiB" ++ ['"'] := by decide
    obtain ⟨hc, hm, hd⟩ := hquote
    cases a <;> cases b <;> cases c <;>
      first
        | rfl
        | exact absurd hk (by decide)
        | simp [commas, resourceLine, ResourceKey.name, hc, hm, hd] at h

/-- `JSON.stringify` leaves the `undefined` properties out, and only the order of the resources
is left to tell the two specs apart. -/
theorem localText_eq_iff (number : ℚ → Text) {lease : SandboxLease} {config : SandboxConfig}
    {input : CreateBuildSandboxInput} (h : lease.ReservedFor config input) :
    Json.stringify number lease.rebuiltSpec.json =
      Json.stringify number (buildSpec config input).json ↔
        input.resources.keys = [.cpu, .memoryMiB, .diskMiB] := by
  have hsame : Json.stringify number lease.rebuiltSpec.json = Json.stringify number
      { buildSpec config input with
        resources := input.resources.toResourceProfile.object : SandboxSpec }.json := by
    rw [h.rebuiltSpec]
    rfl
  rw [hsame]
  refine (Json.stringify_object_eq_iff [_, _, _] [_, _, _] (text "resources")
    (stringify_resources _) (stringify_resources input.resources)).trans ⟨fun ht => ?_, fun hk => ?_⟩
  · have hcommas : commas (input.resources.keys.map
          (resourceLine number input.resources.toResourceProfile)) =
        commas ([.cpu, .memoryMiB, .diskMiB].map
          (resourceLine number input.resources.toResourceProfile)) := by
      simpa [ResourceProfile.object] using ht.symm
    exact keys_of_commas _ input.resources.complete hcommas
  · rw [hk]
    rfl

end LocalText

section Claim

variable (number : ℚ → Text) (before : Text → Text → Bool)

/-- The rebuilt spec has the fingerprint of the requested one, and a `create` that is repeated by
either path finds the resource of the other. -/
structure Reproduced (provider : Fingerprinting) (built rebuilt : SandboxSpec) : Prop where
  fingerprint : provider.fingerprint number before rebuilt =
    provider.fingerprint number before built
  reconciler : ∀ ref, provider.createAgain number before
    (provider.fingerprint number before built) ref rebuilt = .ok ref
  service : ∀ ref, provider.createAgain number before
    (provider.fingerprint number before rebuilt) ref built = .ok ref

theorem reproduced_iff (provider : Fingerprinting) (built rebuilt : SandboxSpec) :
    Reproduced number before provider built rebuilt ↔
      provider.fingerprint number before rebuilt = provider.fingerprint number before built := by
  refine ⟨Reproduced.fingerprint, fun h => ⟨h, fun ref => ?_, fun ref => ?_⟩⟩
  · rw [Fingerprinting.createAgain, h, if_neg (by simp)]
  · rw [Fingerprinting.createAgain, h, if_neg (by simp)]

/-- With the local provider the rebuilt spec has the requested fingerprint exactly when the request
lists its resources in the order of the schema; with Daytona, only if SHA-256 maps two different
texts to one digest. -/
theorem rebuilt_spec_reproduced_iff (provider : Fingerprinting) {lease : SandboxLease}
    {config : SandboxConfig} {input : CreateBuildSandboxInput}
    (h : lease.ReservedFor config input) :
    Reproduced number before provider (buildSpec config input) lease.rebuiltSpec ↔
      match provider with
      | .localProcess => input.resources.keys = [.cpu, .memoryMiB, .diskMiB]
      | .daytona =>
        hashedText number before lease.rebuiltSpec ≠
            hashedText number before (buildSpec config input) ∧
          Sha256.hex (hashedText number before lease.rebuiltSpec) =
            Sha256.hex (hashedText number before (buildSpec config input)) := by
  rw [reproduced_iff]
  cases provider with
  | localProcess =>
    refine Iff.trans ?_ (localText_eq_iff number h)
    rw [Fingerprinting.fingerprint, Fingerprinting.fingerprint, SandboxSpec.json, SandboxSpec.json,
      Json.stringify, Json.stringify]
    simp only [Option.getD_some, Option.some.injEq]
  | daytona =>
    have hne : hashedText number before lease.rebuiltSpec ≠
        hashedText number before (buildSpec config input) := by
      intro he
      have hlen := length_hashedText number before h
      rw [he] at hlen
      omega
    exact ⟨fun he => ⟨hne, he⟩, fun he => he.2⟩

private def sampleConfig : SandboxConfig where
  localEnabled := true
  allowedBuildImages := ["node:22"]
  readinessTimeoutMs := 60000
  leaseSeconds := 900
  autoDeleteSeconds := 1800
  orphanGraceMs := 300000
  heartbeatTimeoutMs := 45000
  commandTimeouts := ⟨180000, 60000, 120000⟩

private def changedInput : CreateBuildSandboxInput where
  workspaceId := 1
  projectId := 2
  branchId := 3
  requestedByUserId := 4
  runId := 5
  sourceArtifact := ⟨"artifact", .validationCandidate⟩
  provider := "daytona"
  image := "node:22"
  attempt := 1
  resources := ResourceProfile.object ⟨1, 1024, 2048⟩

private def sampleLease : SandboxLease :=
  { reservationRecord sampleConfig changedInput 0 0 with
    _id := 6
    externalId := none
    state := .provisioning
    readyAt := none
    lastHeartbeatAt := none
    terminatedAt := none
    error := none
    updatedAt := 0 }

/-- How JavaScript prints a whole number, and how it orders property names. -/
private def wholeNumber (q : ℚ) : Text := text (toString q.num.toNat)

private def alphabetical : Text → Text → Bool
  | [], _ => true
  | _ :: _, [] => false
  | a :: as, b :: bs => a.toNat < b.toNat || a == b && alphabetical as bs

theorem local_spec_reproduced : Reproduced wholeNumber alphabetical .localProcess
    (buildSpec sampleConfig changedInput) sampleLease.rebuiltSpec :=
  (rebuilt_spec_reproduced_iff _ _ .localProcess ⟨0, 0, rfl⟩).mpr rfl

/-- A Daytona sandbox is not found again from its lease: the digests differ. -/
theorem daytona_spec_not_reproduced : ¬ ∀ (number : ℚ → Text) (before : Text → Text → Bool)
    (provider : Fingerprinting) (config : SandboxConfig) (input : CreateBuildSandboxInput)
    (lease : SandboxLease), lease.ReservedFor config input →
    Reproduced number before provider (buildSpec config input) lease.rebuiltSpec := by
  intro h
  have hsame := (h wholeNumber alphabetical .daytona sampleConfig changedInput sampleLease
    ⟨0, 0, rfl⟩).fingerprint
  have hdiffer : Sha256.hex (hashedText wholeNumber alphabetical sampleLease.rebuiltSpec) ≠
      Sha256.hex (hashedText wholeNumber alphabetical (buildSpec sampleConfig changedInput)) := by
    decide +kernel
  exact hdiffer hsame

end Claim

end AppBuilder.Sandbox
