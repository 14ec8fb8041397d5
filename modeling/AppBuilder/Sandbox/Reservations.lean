import AppBuilder.Encoding.JsonParse
import AppBuilder.Sandbox.Fingerprint
import AppBuilder.Sandbox.LeaseInvariant

/-! Concurrent calls of `createReserved`, while everything else may write the stored leases. -/
namespace AppBuilder.Sandbox
open Agent Async Encoding

def ArtifactKind.name : ArtifactKind → String
  | .projectSnapshot => "project_snapshot"
  | .validationCandidate => "validation_candidate"

section Canonical

def jsonNumber (n : ℕ) : Json ℚ := .number n

/-- The object that `canonicalReservation` makes of a request or of a document. -/
def SandboxReservationRecord.canonicalJson (value : SandboxReservationRecord) : Json ℚ :=
  .object [
    (text "workspaceId", jsonId value.workspaceId),
    (text "projectId", jsonId value.projectId),
    (text "branchId", jsonId value.branchId),
    (text "requestedByUserId", jsonId value.requestedByUserId),
    (text "runId", value.runId.elim .undefined jsonId),
    (text "snapshotId", value.snapshotId.elim .undefined jsonId),
    (text "sourceArtifact", .object [
      (text "artifactId", jsonString value.sourceArtifact.artifactId),
      (text "kind", jsonString value.sourceArtifact.kind.name)]),
    (text "purpose", jsonString value.purpose.name),
    (text "provider", jsonString value.provider),
    (text "provisioningKey", jsonString value.provisioningKey),
    (text "spec", .object [
      (text "image", jsonString value.spec.image),
      (text "workingDirectory", jsonString value.spec.workingDirectory),
      (text "networkPolicy", .object [
        (text "defaultAction", jsonString value.spec.networkPolicy.defaultAction.name),
        (text "allowedDomains", .array (value.spec.networkPolicy.allowedDomains.map jsonString)),
        (text "allowedCidrs", .array (value.spec.networkPolicy.allowedCidrs.map jsonString))]),
      (text "leaseSeconds", jsonNumber value.spec.leaseSeconds),
      (text "autoStopSeconds", value.spec.autoStopSeconds.elim .undefined jsonNumber),
      (text "autoDeleteSeconds", jsonNumber value.spec.autoDeleteSeconds)]),
    (text "resourceProfile", .object [
      (text "cpu", .number value.resourceProfile.cpu),
      (text "memoryMiB", jsonNumber value.resourceProfile.memoryMiB),
      (text "diskMiB", jsonNumber value.resourceProfile.diskMiB)])]

/-- `JSON.stringify(canonicalReservation(value))`, where `numbers` prints a number. -/
def canonicalText (numbers : Json.NumberText ℚ) (value : SandboxReservationRecord) : Option Text :=
  Json.stringify numbers.print value.canonicalJson

/-- A property that is left out when it has no value. -/
def optionalMember (key : String) (value : Option (Json ℚ)) : List (Text × Json ℚ) :=
  value.toList.map fun v => (text key, v)

theorem optionalMember_inj {k k' : String} (hk : text k ≠ text k') {a a' b b' : Option (Json ℚ)}
    (h : optionalMember k a ++ optionalMember k' a' = optionalMember k b ++ optionalMember k' b') :
    a = b ∧ a' = b' := by
  cases a <;> cases a' <;> cases b <;> cases b' <;> simp_all [optionalMember]

def SandboxReservationRecord.specMembers (value : SandboxReservationRecord) :
    List (Text × Json ℚ) :=
  [(text "image", jsonString value.spec.image),
    (text "workingDirectory", jsonString value.spec.workingDirectory),
    (text "networkPolicy", .object [
      (text "defaultAction", jsonString value.spec.networkPolicy.defaultAction.name),
      (text "allowedDomains", .array (value.spec.networkPolicy.allowedDomains.map jsonString)),
      (text "allowedCidrs", .array (value.spec.networkPolicy.allowedCidrs.map jsonString))]),
    (text "leaseSeconds", jsonNumber value.spec.leaseSeconds)] ++
  (optionalMember "autoStopSeconds" (value.spec.autoStopSeconds.map jsonNumber) ++
    [(text "autoDeleteSeconds", jsonNumber value.spec.autoDeleteSeconds)])

/-- The properties that the text shows. -/
def SandboxReservationRecord.shownMembers (value : SandboxReservationRecord) :
    List (Text × Json ℚ) :=
  [(text "workspaceId", jsonId value.workspaceId),
    (text "projectId", jsonId value.projectId),
    (text "branchId", jsonId value.branchId),
    (text "requestedByUserId", jsonId value.requestedByUserId)] ++
  (optionalMember "runId" (value.runId.map jsonId) ++
    optionalMember "snapshotId" (value.snapshotId.map jsonId) ++
    [(text "sourceArtifact", .object [
      (text "artifactId", jsonString value.sourceArtifact.artifactId),
      (text "kind", jsonString value.sourceArtifact.kind.name)]),
    (text "purpose", jsonString value.purpose.name),
    (text "provider", jsonString value.provider),
    (text "provisioningKey", jsonString value.provisioningKey),
    (text "spec", .object value.specMembers),
    (text "resourceProfile", .object [
      (text "cpu", .number value.resourceProfile.cpu),
      (text "memoryMiB", jsonNumber value.resourceProfile.memoryMiB),
      (text "diskMiB", jsonNumber value.resourceProfile.diskMiB)])])

theorem canonicalText_eq (numbers : Json.NumberText ℚ) (value : SandboxReservationRecord) :
    canonicalText numbers value = Json.stringify numbers.print (.object value.shownMembers) := by
  rw [canonicalText, SandboxReservationRecord.canonicalJson,
    SandboxReservationRecord.shownMembers, SandboxReservationRecord.specMembers]
  cases value.runId <;> cases value.snapshotId <;> cases value.spec.autoStopSeconds <;> rfl

theorem isJson_spec (value : SandboxReservationRecord) :
    Json.IsJson (.object value.specMembers) := by
  have hdomains := Json.allJson_map (f := jsonString (N := ℚ)) (fun _ => trivial) value.spec.networkPolicy.allowedDomains
  have hcidrs := Json.allJson_map (f := jsonString (N := ℚ)) (fun _ => trivial) value.spec.networkPolicy.allowedCidrs
  have hpolicy : Json.IsJson (N := ℚ) (.object [
      (text "defaultAction", jsonString value.spec.networkPolicy.defaultAction.name),
      (text "allowedDomains", .array (value.spec.networkPolicy.allowedDomains.map jsonString)),
      (text "allowedCidrs", .array (value.spec.networkPolicy.allowedCidrs.map jsonString))]) :=
    ⟨inOrder_of_sublist [text "defaultAction", text "allowedDomains", text "allowedCidrs"]
      (List.Sublist.refl _) (by decide) (by decide), trivial, hdomains, hcidrs, trivial⟩
  refine ⟨inOrder_of_sublist [text "image", text "workingDirectory",
    text "networkPolicy", text "leaseSeconds", text "autoStopSeconds", text "autoDeleteSeconds"]
    ?_ (by decide) (by decide), ?_⟩
  · rw [SandboxReservationRecord.specMembers]
    cases value.spec.autoStopSeconds
    · simp only [optionalMember, Option.map_none, Option.toList_none, List.map_nil,
        List.nil_append, List.map_append, List.map_cons]
      decide
    · exact List.Sublist.refl _
  · rw [SandboxReservationRecord.specMembers]
    cases value.spec.autoStopSeconds
    · exact ⟨trivial, trivial, hpolicy, trivial, trivial, trivial⟩
    · exact ⟨trivial, trivial, hpolicy, trivial, trivial, trivial, trivial⟩

theorem isJson_shown (value : SandboxReservationRecord) :
    Json.IsJson (.object value.shownMembers) := by
  have hspec := isJson_spec value
  have hartifact : Json.IsJson (N := ℚ) (.object [
      (text "artifactId", jsonString value.sourceArtifact.artifactId),
      (text "kind", jsonString value.sourceArtifact.kind.name)]) :=
    ⟨inOrder_of_sublist [text "artifactId", text "kind"] (List.Sublist.refl _) (by decide)
      (by decide), trivial, trivial, trivial⟩
  have hprofile : Json.IsJson (.object [
      (text "cpu", .number value.resourceProfile.cpu),
      (text "memoryMiB", jsonNumber value.resourceProfile.memoryMiB),
      (text "diskMiB", jsonNumber value.resourceProfile.diskMiB)]) :=
    ⟨inOrder_of_sublist [text "cpu", text "memoryMiB", text "diskMiB"] (List.Sublist.refl _)
      (by decide) (by decide), trivial, trivial, trivial, trivial⟩
  have hrest : Json.MembersJson (N := ℚ) [(text "sourceArtifact", .object [
      (text "artifactId", jsonString value.sourceArtifact.artifactId),
      (text "kind", jsonString value.sourceArtifact.kind.name)]),
    (text "purpose", jsonString value.purpose.name),
    (text "provider", jsonString value.provider),
    (text "provisioningKey", jsonString value.provisioningKey),
    (text "spec", .object value.specMembers),
    (text "resourceProfile", .object [
      (text "cpu", .number value.resourceProfile.cpu),
      (text "memoryMiB", jsonNumber value.resourceProfile.memoryMiB),
      (text "diskMiB", jsonNumber value.resourceProfile.diskMiB)])] :=
    ⟨hartifact, trivial, trivial, trivial, hspec, hprofile, trivial⟩
  refine ⟨inOrder_of_sublist [text "workspaceId", text "projectId", text "branchId",
    text "requestedByUserId", text "runId", text "snapshotId", text "sourceArtifact",
    text "purpose", text "provider", text "provisioningKey", text "spec", text "resourceProfile"]
    ?_ (by decide) (by decide), ?_⟩
  · rw [SandboxReservationRecord.shownMembers]
    cases value.runId <;> cases value.snapshotId <;>
      simp only [optionalMember, Option.map_none, Option.map_some, Option.toList_none,
        Option.toList_some, List.map_nil, List.nil_append, List.cons_append, List.map_cons] <;>
      decide
  · rw [SandboxReservationRecord.shownMembers]
    cases value.runId <;> cases value.snapshotId
    · exact ⟨trivial, trivial, trivial, trivial, hrest⟩
    · exact ⟨trivial, trivial, trivial, trivial, trivial, hrest⟩
    · exact ⟨trivial, trivial, trivial, trivial, trivial, hrest⟩
    · exact ⟨trivial, trivial, trivial, trivial, trivial, trivial, hrest⟩

section Injectivity

theorem jsonId_inj {a b : ObjectId} (h : (jsonId a : Json ℚ) = jsonId b) : a = b := by
  simp only [jsonId, jsonString, Json.string.injEq, text, Nat.toString_eq_repr,
    Nat.toList_repr] at h
  have hd := congrArg (fun digits => Nat.ofDigitChars 10 digits 0) h
  simpa using hd

theorem jsonString_inj {a b : String} (h : (jsonString a : Json ℚ) = jsonString b) : a = b :=
  String.toList_inj.mp (Json.string.inj h)

theorem jsonNumber_inj {a b : ℕ} (h : jsonNumber a = jsonNumber b) : a = b :=
  Nat.cast_injective (Json.number.inj h)

theorem ArtifactKind.name_inj {a b : ArtifactKind} (h : a.name = b.name) : a = b := by
  cases a <;> cases b <;> first | rfl | exact absurd h (by decide)

theorem SandboxPurpose.name_inj {a b : SandboxPurpose} (h : a.name = b.name) : a = b := by
  cases a <;> cases b <;> first | rfl | exact absurd h (by decide)

theorem NetworkAction.name_inj {a b : NetworkAction} (h : a.name = b.name) : a = b := by
  cases a <;> cases b <;> first | rfl | exact absurd h (by decide)

theorem map_inj {α : Type} {f : α → Json ℚ} (hf : ∀ {a b}, f a = f b → a = b) {l l' : List α}
    (h : l.map f = l'.map f) : l = l' := List.map_injective_iff.mpr (fun _ _ => hf) h

theorem option_inj {α : Type} {f : α → Json ℚ} (hf : ∀ {a b}, f a = f b → a = b)
    {o o' : Option α} (h : o.map f = o'.map f) : o = o' :=
  Option.map_injective (fun _ _ => hf) h

variable {a b : SandboxReservationRecord}

theorem spec_of_members (h : a.specMembers = b.specMembers) : a.spec = b.spec := by
  obtain ⟨hfront, hrest⟩ := List.append_inj h rfl
  obtain ⟨hstop, hdelete⟩ := List.append_inj' hrest rfl
  have hoption := @optionalMember_inj "autoStopSeconds" "" (by decide) _ none _ none
    (congrArg (· ++ optionalMember "" none) hstop)
  simp only [List.cons.injEq, Prod.mk.injEq, true_and, and_true, Json.object.injEq,
    Json.array.injEq] at hfront hdelete
  obtain ⟨himage, hdirectory, ⟨haction, hdomains, hcidrs⟩, hlease⟩ := hfront
  have hpolicy : a.spec.networkPolicy = b.spec.networkPolicy := by
    cases hn : a.spec.networkPolicy
    cases hn' : b.spec.networkPolicy
    rw [hn, hn'] at haction hdomains hcidrs
    rw [NetworkPolicy.mk.injEq]
    exact ⟨NetworkAction.name_inj (jsonString_inj haction), map_inj jsonString_inj hdomains,
      map_inj jsonString_inj hcidrs⟩
  cases hs : a.spec
  cases hs' : b.spec
  rw [hs, hs'] at himage hdirectory hlease hpolicy hdelete hoption
  rw [LeaseSpec.mk.injEq]
  exact ⟨jsonString_inj himage, jsonString_inj hdirectory, hpolicy, jsonNumber_inj hlease,
    option_inj jsonNumber_inj hoption.1, jsonNumber_inj hdelete⟩

theorem reservation_of_members (h : a.shownMembers = b.shownMembers) :
    canonicalReservation a = canonicalReservation b := by
  obtain ⟨hfront, hrest⟩ := List.append_inj h rfl
  obtain ⟨hoptions, hback⟩ := List.append_inj' hrest rfl
  obtain ⟨hrun, hsnapshot⟩ := optionalMember_inj (by decide) hoptions
  simp only [List.cons.injEq, Prod.mk.injEq, true_and, and_true, Json.object.injEq] at hfront hback
  obtain ⟨hworkspace, hproject, hbranch, huser⟩ := hfront
  obtain ⟨⟨hartifact, hkind⟩, hpurpose, hprovider, hkey, hspec, hcpu, hmemory, hdisk⟩ := hback
  have hsource : a.sourceArtifact = b.sourceArtifact := by
    cases hs : a.sourceArtifact
    cases hs' : b.sourceArtifact
    rw [hs, hs'] at hartifact hkind
    rw [SourceArtifact.mk.injEq]
    exact ⟨jsonString_inj hartifact, ArtifactKind.name_inj (jsonString_inj hkind)⟩
  have hprofile : a.resourceProfile = b.resourceProfile := by
    cases hs : a.resourceProfile
    cases hs' : b.resourceProfile
    rw [hs, hs'] at hcpu hmemory hdisk
    rw [ResourceProfile.mk.injEq]
    exact ⟨Json.number.inj hcpu, jsonNumber_inj hmemory, jsonNumber_inj hdisk⟩
  simp only [canonicalReservation, SandboxReservationRecord.mk.injEq, and_true]
  exact ⟨jsonId_inj hworkspace, jsonId_inj hproject, jsonId_inj hbranch, jsonId_inj huser,
    option_inj jsonId_inj hrun, option_inj jsonId_inj hsnapshot, hsource,
    SandboxPurpose.name_inj (jsonString_inj hpurpose), jsonString_inj hprovider,
    jsonString_inj hkey, spec_of_members hspec, hprofile⟩

/-- The comparison of the two texts is the one of what they show. -/
theorem canonicalText_eq_iff (numbers : Json.NumberText ℚ) :
    canonicalText numbers a = canonicalText numbers b ↔
      canonicalReservation a = canonicalReservation b := by
  constructor
  · intro h
    rw [canonicalText_eq, canonicalText_eq] at h
    have hobject := Json.eq_of_stringify numbers (isJson_shown a) (isJson_shown b) h
    exact reservation_of_members (Json.object.inj hobject)
  · intro h
    have htimes : ∀ r : SandboxReservationRecord,
        (canonicalReservation r).canonicalJson = r.canonicalJson := fun _ => rfl
    rw [canonicalText, canonicalText, ← htimes a, ← htimes b, h]

theorem sameReservation_iff (numbers : Json.NumberText ℚ) (existing : SandboxLease) :
    sameReservation existing b = true ↔
      canonicalText numbers existing.toSandboxReservationRecord = canonicalText numbers b := by
  rw [sameReservation, beq_iff_eq, canonicalText_eq_iff]

end Injectivity

end Canonical

/-- What everything else may do to the leases meanwhile: any update by an `_id`. -/
inductive ReservationAct where
  | elapse (ms : ℕ)
  | update (op : SandboxOp)

section Calls

variable {key : SandboxRef → String} (directory : Directory)

def ReservationAct.apply : ReservationAct → SandboxWorld key → Option (SandboxWorld key)
  | .elapse ms, w => some { w with clock := w.clock + ms }
  | .update op, w => if op.update?.isSome then some (w.exec directory 0 op).2 else none

def reservations : Machine sandboxApi (SandboxWorld key) SandboxReservationRecord SandboxLease
    ReservationAct where
  exec t _ op w := w.exec directory t op
  body := createReserved
  fault := SandboxOp.mayFail
  spawnable _ _ := true
  act := ReservationAct.apply directory
  crashes := true
  onCrash _ w := w

abbrev Reserving (key : SandboxRef → String) : Type :=
  Config sandboxApi (SandboxWorld key) SandboxReservationRecord SandboxLease

abbrev ReservationStep : Type := Label sandboxApi SandboxReservationRecord ReservationAct

/-- What a call does with the lease it has read. -/
def answer (numbers : Json.NumberText ℚ) (stored : SandboxLease)
    (input : SandboxReservationRecord) : SandboxPromise SandboxLease :=
  if canonicalText numbers stored.toSandboxReservationRecord = canonicalText numbers input then
    .pure stored
  else .throw (.sandbox ⟨.ownershipMismatch,
    "Provisioning key belongs to a different Sandbox reservation", false, none⟩)

theorem reuseOrReject_eq (numbers : Json.NumberText ℚ) (stored : SandboxLease)
    (input : SandboxReservationRecord) : reuseOrReject stored input = answer numbers stored input := by
  by_cases h : sameReservation stored input = true
  · rw [reuseOrReject, if_pos h, answer, if_pos ((sameReservation_iff numbers stored).mp h)]
    rfl
  · rw [reuseOrReject, if_neg h, answer,
      if_neg fun he => h ((sameReservation_iff numbers stored).mpr he)]

/-- After a duplicate key. -/
def secondLookup (input : SandboxReservationRecord) : SandboxPromise SandboxLease := do
  let concurrent : Option SandboxLease ← perform (.findByProvisioningKey input.provisioningKey)
  match concurrent with
  | none => .throw .duplicateKey
  | some concurrent => reuseOrReject concurrent input

def creation (input : SandboxReservationRecord) : SandboxPromise SandboxLease :=
  (perform (.createLease input)).tryCatch fun error =>
    if error ≠ .duplicateKey then .throw error else secondLookup input

/-- Where a call may be that has not ended. -/
inductive Stage (input : SandboxReservationRecord) : SandboxPromise SandboxLease → Prop
  | lookup : Stage input (createReserved input)
  | creation : Stage input (creation input)
  | secondLookup : Stage input (secondLookup input)

/-- What a call that has not ended waits for, and what the answers lead to. -/
inductive Waits (input : SandboxReservationRecord) : (op : SandboxOp) →
    (sandboxApi.Answer op → SandboxPromise SandboxLease) → Prop
  | looks {next : sandboxApi.Answer (.findByProvisioningKey input.provisioningKey) →
        SandboxPromise SandboxLease}
      (found : ∀ stored, next (.ok (some stored)) = reuseOrReject stored input)
      (missing : Stage input (next (.ok none)) ∨ next (.ok none) = .throw .duplicateKey)
      (failed : ∀ e, next (.error e) = .throw e) :
      Waits input (.findByProvisioningKey input.provisioningKey) next
  | creates {next : sandboxApi.Answer (.createLease input) → SandboxPromise SandboxLease}
      (created : ∀ lease, next (.ok lease) = .pure lease)
      (collided : next (.error .duplicateKey) = secondLookup input)
      (failed : ∀ e, e ≠ .duplicateKey → next (.error e) = .throw e) :
      Waits input (.createLease input) next

variable {input : SandboxReservationRecord}

theorem Stage.waits {p : SandboxPromise SandboxLease} (h : Stage input p) :
    ∃ op next, p = .await op next ∧ Waits input op next := by
  cases h with
  | lookup =>
    refine ⟨_, _, rfl, .looks (fun stored => rfl) (.inl ?_) fun e => rfl⟩
    have hcatch : (perform (.createLease input)).tryCatch (fun error => do
        if error ≠ .duplicateKey then .throw error
        else
          let concurrent : Option SandboxLease ←
            perform (.findByProvisioningKey input.provisioningKey)
          match concurrent with
          | none => .throw error
          | some concurrent => reuseOrReject concurrent input) = Sandbox.creation input := by
      rw [Sandbox.creation]
      congr 1
      funext error
      by_cases he : error = .duplicateKey
      · subst he
        rfl
      · exact (if_pos he).trans (if_pos he).symm
    exact hcatch ▸ .creation
  | creation =>
    refine ⟨_, _, rfl, .creates (fun lease => rfl) rfl fun e he => ?_⟩
    exact if_pos he
  | secondLookup => exact ⟨_, _, rfl, .looks (fun stored => rfl) (.inr rfl) fun e => rfl⟩

theorem Stage.pending_ne {p : SandboxPromise SandboxLease} (h : Stage input p) :
    p.pending ≠ none := by
  obtain ⟨op, next, rfl, -⟩ := h.waits
  exact Option.some_ne_none op

/-- A call that has ended, or that will. -/
def Staged (th : Thread sandboxApi SandboxReservationRecord SandboxLease) : Prop :=
  Stage th.entry th.prog ∨ th.prog.pending = none

theorem ended_reuseOrReject (stored : SandboxLease) :
    (reuseOrReject stored input).pending = none := by
  rw [reuseOrReject]
  split_ifs <;> rfl

/-- Whatever is answered, a call goes on to a stage, or ends. -/
theorem Waits.next {op : SandboxOp} {next : sandboxApi.Answer op → SandboxPromise SandboxLease}
    (h : Waits input op next) (r : sandboxApi.Answer op) :
    Stage input (next r) ∨ (next r).pending = none := by
  cases h with
  | looks found missing failed =>
    rcases r with e | _ | stored
    · exact .inr (by rw [failed]; rfl)
    · rcases missing with hs | he
      · exact .inl hs
      · exact .inr (by rw [he]; rfl)
    · exact .inr (by rw [found]; exact ended_reuseOrReject stored)
  | creates created collided failed =>
    rcases r with e | lease
    · by_cases he : e = .duplicateKey
      · subst he
        exact .inl (collided ▸ .secondLookup)
      · exact .inr (by rw [failed e he]; rfl)
    · exact .inr (by rw [created]; rfl)

end Calls

namespace SandboxWorld

variable {key : SandboxRef → String} {w w' : SandboxWorld key} {lease stored : SandboxLease}

/-- The lease is stored, whatever has become of its state. -/
def KeepsRecord (w : SandboxWorld key) (lease stored : SandboxLease) : Prop :=
  stored ∈ w.leases ∧ stored._id = lease._id ∧
    stored.toSandboxReservationRecord = lease.toSandboxReservationRecord

theorem KeepsRecord.provisioningKey (h : w.KeepsRecord lease stored) :
    stored.provisioningKey = lease.provisioningKey := congrArg (·.provisioningKey) h.2.2

variable (directory : Directory) (t : ThreadId)

theorem exec_indexed (op : SandboxOp) (hw : w.Indexed) : (w.exec directory t op).2.Indexed := by
  cases exec_effect directory t op w with
  | unchanged leases nextId =>
    refine ⟨?_, ?_, ?_⟩
    · rw [leases, nextId]
      exact hw.fresh
    · rw [leases]
      exact hw.ids
    · rw [leases]
      exact hw.apart
  | created record _ _ admitted leases nextId => exact hw.created admitted leases nextId
  | replaced u hu old leaseId accepted replaces =>
    exact replaces.indexed (SandboxOp.update_record hu old w.clock).1 hw

theorem exec_stores (op : SandboxOp) (hw : w.Indexed) (hm : lease ∈ w.leases) :
    ∃ stored, (w.exec directory t op).2.KeepsRecord lease stored := by
  cases exec_effect directory t op w with
  | unchanged leases nextId => exact ⟨lease, leases ▸ hm, rfl, rfl⟩
  | created record _ _ admitted leases nextId =>
    exact ⟨lease, leases ▸ List.mem_append_left _ hm, rfl, rfl⟩
  | replaced u hu old leaseId accepted replaces =>
    by_cases hid : lease._id = old._id
    · have hold := hw.lease?_of_mem hm
      rw [hid, replaces.stored] at hold
      cases hold
      exact ⟨_, replaces.mem_leases.mpr (.inl rfl), SandboxOp.update_record hu lease w.clock⟩
    · exact ⟨lease, replaces.mem_leases.mpr (.inr ⟨hm, hid⟩), rfl, rfl⟩

/-- The operations of a call only add leases. -/
theorem exec_extends {input : SandboxReservationRecord} {op : SandboxOp}
    {next : sandboxApi.Answer op → SandboxPromise SandboxLease} (h : Waits input op next) :
    w.leases <+: (w.exec directory t op).2.leases := by
  cases h with
  | looks => exact List.prefix_refl _
  | creates =>
    simp only [exec, createLease]
    split_ifs
    · exact List.prefix_refl _
    · exact List.prefix_append _ _
    · exact List.prefix_refl _

end SandboxWorld

section Runs

variable {key : SandboxRef → String} {directory : Directory} {c c' : Reserving key}
  {l : ReservationStep}

structure ReservationInvariant (c : Reserving key) : Prop where
  indexed : c.state.Indexed
  staged : ∀ th ∈ c.threads, Staged th

/-- The step lemma: leases are neither lost nor renamed, and the calls alone only add some. -/
theorem reservation_step (hc : ReservationInvariant c)
    (h : (reservations directory).step c l = some c') :
    ReservationInvariant c' ∧ (∀ lease ∈ c.state.leases, ∃ stored, c'.state.KeepsRecord lease stored) ∧
      ((∀ a, l ≠ .act a) → c.state.leases <+: c'.state.leases) := by
  cases l with
  | spawn input =>
    obtain ⟨-, rfl⟩ := Machine.step_spawn h
    refine ⟨⟨hc.indexed, fun th hth => ?_⟩, fun lease hm => ⟨lease, hm, rfl, rfl⟩,
      fun _ => List.prefix_refl _⟩
    rcases List.mem_append.mp hth with hth | hth
    · exact hc.staged th hth
    · rw [List.mem_singleton.mp hth]
      exact .inl .lookup
  | advance t o =>
    obtain ⟨input, op, next, ht, -, rfl⟩ := Machine.step_advance h
    have hwaits : Waits input op next := by
      rcases hc.staged _ (List.mem_of_getElem? ht) with hs | he
      · obtain ⟨op', next', hp, hw⟩ := hs.waits
        cases hp
        exact hw
      · cases he
    have hstate := (reservations directory).perform_state t input op c.state o
    have hstaged : ∀ th ∈ c.threads.set t ⟨input,
        next ((reservations directory).perform t input op c.state o).1, false⟩, Staged th := by
      intro th hth
      rcases List.mem_or_eq_of_mem_set hth with hth | rfl
      · exact hc.staged th hth
      · exact hwaits.next _
    rcases hstate with hstate | hstate
    · refine ⟨⟨?_, hstaged⟩, ?_, ?_⟩ <;> rw [hstate]
      · exact hc.indexed
      · exact fun lease hm => ⟨lease, hm, rfl, rfl⟩
      · exact fun _ => List.prefix_refl _
    · refine ⟨⟨?_, hstaged⟩, ?_, ?_⟩ <;> rw [hstate]
      · exact SandboxWorld.exec_indexed directory t op hc.indexed
      · exact fun lease hm => SandboxWorld.exec_stores directory t op hc.indexed hm
      · exact fun _ => SandboxWorld.exec_extends directory t hwaits
  | crash t =>
    obtain ⟨-, input, p, ht, rfl⟩ := Machine.step_crash h
    refine ⟨⟨hc.indexed, fun th hth => ?_⟩, fun lease hm => ⟨lease, hm, rfl, rfl⟩,
      fun _ => List.prefix_refl _⟩
    rcases List.mem_or_eq_of_mem_set hth with hth | rfl
    · exact hc.staged th hth
    · exact hc.staged ⟨input, p, false⟩ (List.mem_of_getElem? ht)
  | act a =>
    obtain ⟨w, ha, rfl⟩ := Machine.step_act h
    cases a with
    | elapse ms =>
      cases Option.some.inj ha
      exact ⟨⟨⟨hc.indexed.fresh, hc.indexed.ids, hc.indexed.apart⟩, hc.staged⟩,
        fun lease hm => ⟨lease, hm, rfl, rfl⟩, fun hcall => absurd rfl (hcall _)⟩
    | update op =>
      simp only [reservations, ReservationAct.apply] at ha
      split_ifs at ha
      cases ha
      exact ⟨⟨SandboxWorld.exec_indexed directory 0 op hc.indexed, hc.staged⟩,
        fun lease hm => SandboxWorld.exec_stores directory 0 op hc.indexed hm,
        fun hcall => absurd rfl (hcall _)⟩

/-- The run lemma. -/
theorem reservation_run {ls : List ReservationStep} (hc : ReservationInvariant c)
    (h : (reservations directory).play c ls = some c') :
    ReservationInvariant c' ∧ ∀ lease ∈ c.state.leases, ∃ stored, c'.state.KeepsRecord lease stored := by
  refine Machine.play_relates (J := ReservationInvariant)
    (r := fun a b => ∀ lease ∈ a.state.leases, ∃ stored, b.state.KeepsRecord lease stored)
    (fun a lease hm => ⟨lease, hm, rfl, rfl⟩) ?_
    (fun a l b ha _ hs => ⟨(reservation_step ha hs).1, (reservation_step ha hs).2.1⟩)
    (Machine.along_true c ls) h hc
  intro a b d hab hbd lease hm
  obtain ⟨stored, hs, hid, hrecord⟩ := hab lease hm
  obtain ⟨later, hl, hid', hrecord'⟩ := hbd stored hs
  exact ⟨later, hl, hid'.trans hid, hrecord'.trans hrecord⟩

theorem reservationInvariant_initial {w : SandboxWorld key} (hw : w.Initial) :
    ReservationInvariant (Config.initial w) :=
  ⟨hw.wellFormed.indexed, fun _ hth => nomatch hth⟩

/-- The next operation of the call finds `lease`, or collides with it. -/
structure Meets (c : Reserving key) (t : ThreadId) (input : SandboxReservationRecord)
    (lease : SandboxLease) : Prop where
  stored : lease ∈ c.state.leases
  own : lease.provisioningKey = input.provisioningKey
  waits : ∃ p, c.threads[t]? = some ⟨input, p, false⟩ ∧
    (p.pending = some (.findByProvisioningKey input.provisioningKey) ∨
      p.pending = some (.createLease input) ∧ input.valid = true)

/-- The call has got an error of the database itself. -/
def Disturbed (t : ThreadId) (ls : List ReservationStep) (p : SandboxPromise SandboxLease) : Prop :=
  ∃ e, p = .throw e ∧ (.advance t (.refused e) ∈ ls ∨ .advance t (.unacknowledged e) ∈ ls)

/-- The call has read `lease` during the run, and has answered accordingly. -/
def Answered (numbers : Json.NumberText ℚ) (directory : Directory) (c : Reserving key)
    (ls : List ReservationStep) (input : SandboxReservationRecord) (lease : SandboxLease)
    (p : SandboxPromise SandboxLease) : Prop :=
  ∃ ls₁ ls₂ d stored, ls = ls₁ ++ ls₂ ∧ (reservations directory).play c ls₁ = some d ∧
    d.state.KeepsRecord lease stored ∧ p = answer numbers stored input

variable {t : ThreadId} {input : SandboxReservationRecord} {lease : SandboxLease}

/-- The answer of the database to a lookup by the key of a stored lease. -/
theorem find_of_stored {w : SandboxWorld key} (hw : w.Indexed) (hm : lease ∈ w.leases)
    (hown : lease.provisioningKey = input.provisioningKey) :
    ((reservations directory).perform t input (.findByProvisioningKey input.provisioningKey) w
      .done).1 = .ok (some lease) := by
  have hfind : w.leases.find? (fun other => other.provisioningKey == input.provisioningKey) =
      some lease := by
    cases hf : w.leases.find? fun other => other.provisioningKey == input.provisioningKey with
    | none =>
      have hno := List.find?_eq_none.mp hf lease hm
      exact absurd (beq_iff_eq.mpr hown) hno
    | some other =>
      have hkey : other.provisioningKey = input.provisioningKey := by
        simpa using List.find?_some hf
      rw [hw.eq_of_provisioningKey hm (List.mem_of_find?_eq_some hf) (hown.trans hkey.symm)]
  exact congrArg Except.ok hfind

/-- A valid reservation with the key of a stored lease is refused, and changes nothing. -/
theorem create_of_stored {w : SandboxWorld key} (hw : w.Indexed) (hm : lease ∈ w.leases)
    (hown : lease.provisioningKey = input.provisioningKey) (hvalid : input.valid = true) :
    (reservations directory).perform t input (.createLease input) w .done =
      (.error .duplicateKey, w) := by
  have hfresh := hw.fresh lease hm
  have hadmits : w.admits (w.reservedLease input) = false := by
    refine Bool.eq_false_iff.mpr fun hadm => ?_
    have hc := SandboxWorld.admits_iff.mp hadm lease hm (Nat.ne_of_lt hfresh)
    have hkey : (w.reservedLease input).provisioningKey = input.provisioningKey := rfl
    simp [SandboxWorld.collide, hkey, hown] at hc
  simp only [reservations, Machine.perform, SandboxWorld.exec, SandboxWorld.createLease, hvalid,
    hadmits]
  rfl

/-- An error that is not a duplicate key ends a call. -/
theorem Waits.failed {op : SandboxOp} {next : sandboxApi.Answer op → SandboxPromise SandboxLease}
    (h : Waits input op next) {e : Failure} (he : SandboxOp.mayFail op e = true) :
    next (.error e) = .throw e := by
  cases h with
  | looks found missing failed => exact failed e
  | creates created collided failed =>
    refine failed e ?_
    rintro rfl
    cases he

theorem Disturbed.cons {ls : List ReservationStep} {p : SandboxPromise SandboxLease}
    (h : Disturbed t ls p) : Disturbed t (l :: ls) p := by
  obtain ⟨e, hp, hl⟩ := h
  exact ⟨e, hp, hl.imp (List.mem_cons_of_mem l) (List.mem_cons_of_mem l)⟩

theorem Answered.cons {numbers : Json.NumberText ℚ} {ls : List ReservationStep} {d : Reserving key}
    {stored : SandboxLease} {p : SandboxPromise SandboxLease}
    (hd : (reservations directory).step c l = some d) (hs : d.state.KeepsRecord lease stored)
    (h : Answered numbers directory d ls input stored p) :
    Answered numbers directory c (l :: ls) input lease p := by
  obtain ⟨ls₁, ls₂, b, later, rfl, hb, ⟨hm, hid, hrecord⟩, hp⟩ := h
  exact ⟨l :: ls₁, ls₂, b, later, rfl, Machine.play_cons.mpr ⟨d, hd, hb⟩,
    ⟨hm, hid.trans hs.2.1, hrecord.trans hs.2.2⟩, hp⟩

/-- The program of a call that has ended is the one it ended with. -/
theorem ended_prog {ls : List ReservationStep} {p q : SandboxPromise SandboxLease}
    (h : (reservations directory).play c ls = some c') (hq : c.threads[t]? = some ⟨input, q, false⟩)
    (hend : q.pending = none) (ht : c'.threads[t]? = some ⟨input, p, false⟩) : p = q := by
  rcases Machine.thread_at_rest h hq (.inr hend) with hc | hc
  · cases ht.symm.trans hc
    rfl
  · cases ht.symm.trans hc

/-- A call that meets a lease answers with it. -/
theorem answered_of_meets (numbers : Json.NumberText ℚ) {ls : List ReservationStep}
    (hc : ReservationInvariant c) (hmeets : Meets c t input lease)
    (h : (reservations directory).play c ls = some c') {p : SandboxPromise SandboxLease}
    (ht : c'.threads[t]? = some ⟨input, p, false⟩) (hend : p.pending = none) :
    Disturbed t ls p ∨ Answered numbers directory c ls input lease p := by
  induction ls generalizing c lease with
  | nil =>
    cases Option.some.inj h
    obtain ⟨q, hq, hwaits⟩ := hmeets.waits
    cases Option.some.inj (ht.symm.trans hq)
    rcases hwaits with hw | ⟨hw, -⟩ <;> cases hend.symm.trans hw
  | cons l ls ih =>
    obtain ⟨d, hd, hp⟩ := Machine.play_cons.mp h
    obtain ⟨q, hq, hwaits⟩ := hmeets.waits
    obtain ⟨hinv, hstores, -⟩ := reservation_step hc hd
    obtain ⟨stored, hstored⟩ := hstores lease hmeets.stored
    rcases Machine.thread_step hd hq with ⟨o, rfl, -, -⟩ | ⟨-, hcrash⟩ | hsame
    · obtain ⟨input', op, next, hq', ha, rfl⟩ := Machine.step_advance hd
      cases Option.some.inj (hq'.symm.trans hq)
      have hlt : t < c.threads.length := (List.getElem?_eq_some_iff.mp hq).1
      have hw : Waits input op next := by
        rcases hc.staged _ (List.mem_of_getElem? hq) with hs | he
        · obtain ⟨op', next', hp', hw⟩ := hs.waits
          cases hp'
          exact hw
        · cases he
      have hthread := List.getElem?_set_self (a := (⟨input, next
        ((reservations directory).perform t input op c.state o).1, false⟩ :
          Thread sandboxApi SandboxReservationRecord SandboxLease)) hlt
      cases o with
      | refused e =>
        have hthrow : next (.error e) = .throw e := hw.failed ha
        have hp' := ended_prog hp hthread (by rw [Machine.perform, hthrow]; rfl) ht
        exact .inl ⟨e, hp'.trans hthrow, .inl (by simp)⟩
      | unacknowledged e =>
        have hthrow : next (.error e) = .throw e := hw.failed ha
        have hp' := ended_prog hp hthread (by rw [Machine.perform, hthrow]; rfl) ht
        exact .inl ⟨e, hp'.trans hthrow, .inr (by simp)⟩
      | done =>
        cases hw with
        | @looks next found missing failed =>
          have hanswer : next ((reservations directory).perform t input _ c.state .done).1 =
              answer numbers lease input := by
            refine (congrArg next (find_of_stored hc.indexed hmeets.stored hmeets.own)).trans ?_
            exact (found lease).trans (reuseOrReject_eq numbers lease input)
          have hp' := ended_prog hp hthread (by
            rw [hanswer, ← reuseOrReject_eq]
            exact ended_reuseOrReject lease) ht
          exact .inr ⟨[], _, c, lease, rfl, rfl, ⟨hmeets.stored, rfl, rfl⟩, hp'.trans hanswer⟩
        | @creates next created collided failed =>
          have hvalid : input.valid = true := by
            rcases hwaits with hw | ⟨-, hv⟩
            · cases hw
            · exact hv
          have hexec : (reservations directory).perform t input (.createLease input) c.state .done =
              (.error .duplicateKey, c.state) :=
            create_of_stored hc.indexed hmeets.stored hmeets.own hvalid
          have hnext : next ((reservations directory).perform t input (.createLease input) c.state
              .done).1 = secondLookup input := by
            rw [hexec]
            exact collided
          rw [hnext] at hthread
          have hmeets' : Meets ⟨((reservations directory).perform t input (.createLease input)
              c.state .done).2, c.threads.set t ⟨input, next ((reservations directory).perform t
                input (.createLease input) c.state .done).1, false⟩⟩ t input lease := by
            refine ⟨?_, hmeets.own, secondLookup input, ?_, .inl rfl⟩
            · rw [hexec]
              exact hmeets.stored
            · rw [hnext]
              exact hthread
          have hstays : ((reservations directory).perform t input (.createLease input) c.state
              .done).2.KeepsRecord lease lease := ⟨hmeets'.stored, rfl, rfl⟩
          exact (ih hinv hmeets' hp).imp Disturbed.cons (Answered.cons hd hstays)
    · rcases Machine.thread_at_rest hp hcrash (.inl rfl) with hdead | hdead
      · cases ht.symm.trans hdead
      · cases ht.symm.trans hdead
    · have hmeets' : Meets d t input stored :=
        ⟨hstored.1, hstored.provisioningKey.trans hmeets.own, q, hsame, hwaits⟩
      exact (ih hinv hmeets' hp).imp Disturbed.cons (Answered.cons hd hstored)

/-- `createReserved` is idempotent. A provisioning key names one lease for good; a call that finds
that lease or collides with it returns it if the canonical texts agree, and is refused otherwise;
and no call changes a lease that is stored. -/
theorem createReserved_idempotent (numbers : Json.NumberText ℚ) (directory : Directory)
    {w : SandboxWorld key} (hw : w.Initial) {ls : List ReservationStep} {c : Reserving key}
    (hc : (reservations directory).play (.initial w) ls = some c) :
    (∀ a ∈ c.state.leases, ∀ b ∈ c.state.leases, a.provisioningKey = b.provisioningKey → a = b) ∧
    (∀ ms c', (reservations directory).play c ms = some c' →
      (∀ a ∈ c.state.leases, ∀ b ∈ c'.state.leases,
        a.provisioningKey = b.provisioningKey → b._id = a._id) ∧
      ∀ t input lease p, Meets c t input lease → c'.threads[t]? = some ⟨input, p, false⟩ →
        p.pending = none → Disturbed t ms p ∨ Answered numbers directory c ms input lease p) ∧
    ∀ l c', (∀ a, l ≠ .act a) → (reservations directory).step c l = some c' →
      c.state.leases <+: c'.state.leases := by
  have hinv := (reservation_run (reservationInvariant_initial hw) hc).1
  refine ⟨fun a ha b hb hk => hinv.indexed.eq_of_provisioningKey ha hb hk, fun ms c' hplay => ?_,
    fun l c' hcall hstep => (reservation_step hinv hstep).2.2 hcall⟩
  obtain ⟨hinv', hstores⟩ := reservation_run hinv hplay
  refine ⟨fun a ha b hb hk => ?_, fun t input lease p hmeets ht hend =>
    answered_of_meets numbers hinv hmeets hplay ht hend⟩
  obtain ⟨later, hlater⟩ := hstores a ha
  have hsame := hinv'.indexed.eq_of_provisioningKey hlater.1 hb (hlater.provisioningKey.trans hk)
  exact hsame ▸ hlater.2.1

end Runs

section Sample

/-- The reservation of `sampleInput`. -/
def sampleRecord : SandboxReservationRecord :=
  reservationRecord sampleOptions.config sampleInput 0 0

/-- Two calls with one reservation both look before the first one creates the lease; the lease is
taken on, and a third call asks for it with another user. -/
def sampleReserving : List ReservationStep :=
  [.spawn sampleRecord, .spawn sampleRecord, .advance 0 .done, .advance 1 .done, .advance 0 .done,
    .advance 1 .done, .act (.update (.transition 6 [.reserved] .provisioning {})),
    .advance 1 .done, .spawn { sampleRecord with requestedByUserId := 7 }, .advance 2 .done]

theorem sampleReserving_idempotent : ∃ c : Reserving sampleKey,
    (reservations sampleDirectory).play (.initial sampleWorld) sampleReserving = some c ∧
    c.state.leases.map (·.state) = [.provisioning] ∧
    (∀ a ∈ c.state.leases, ∀ b ∈ c.state.leases, a.provisioningKey = b.provisioningKey → a = b) ∧
    ∀ l c', (∀ a, l ≠ .act a) → (reservations sampleDirectory).step c l = some c' →
      c.state.leases <+: c'.state.leases := by
  have hrun : ((reservations sampleDirectory).play (.initial sampleWorld) sampleReserving).map
      (fun c => c.state.leases.map (·.state)) = some [.provisioning] := by decide
  obtain ⟨c, hc, hstates⟩ := Option.map_eq_some_iff.mp hrun
  have hall := createReserved_idempotent Json.rationals sampleDirectory sampleWorld_initial hc
  exact ⟨c, hc, hstates, hall.1, hall.2.2⟩

end Sample

end AppBuilder.Sandbox
