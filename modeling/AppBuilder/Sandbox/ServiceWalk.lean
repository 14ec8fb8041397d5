import AppBuilder.Sandbox.Answers

/-! `SandboxService` and `QuotaScheduler` keep to the conduct. -/
namespace AppBuilder.Sandbox
open Agent Async

variable {options : SandboxServiceOptions} {directory : Directory} {key : SandboxRef → String}
  {h : SandboxHistory}

/-- The lease is part of the newest answer. -/
def Latest (h : SandboxHistory) (lease : SandboxLease) : Prop :=
  ∃ x earlier, h = x :: earlier ∧ lease ∈ leasesRead x

theorem Latest.saw {lease : SandboxLease} (hl : Latest h lease) : Saw h lease := by
  obtain ⟨x, earlier, rfl, hl⟩ := hl
  exact ⟨x, List.mem_cons_self, hl⟩

/-- The answer of an operation that finds at most one lease. -/
theorem mem_found (lease : SandboxLease) : lease ∈ Option.toList (some lease) := by simp

theorem requireProvider_conducted (kind : String) :
    Conducted options directory key (requireProvider options kind) h fun _ h' => h' = h := by
  unfold requireProvider
  split_ifs
  · rfl
  · trivial

theorem requireLease_conducted (leaseId : ObjectId) :
    Conducted options directory key (requireLease leaseId) h fun lease h' =>
      Latest h' lease ∧ lease._id = leaseId := by
  refine Conducted.step (.findLease leaseId) trivial fun lease hl => ?_
  cases lease with
  | none => trivial
  | some lease => exact ⟨⟨_, h, rfl, mem_found lease⟩, hl.findLease⟩

theorem orRequire_conducted {changed : Option SandboxLease} {leaseId : ObjectId}
    (hc : ∀ lease, changed = some lease → Latest h lease ∧ lease._id = leaseId) :
    Conducted options directory key (orRequire changed leaseId) h fun lease h' =>
      Latest h' lease ∧ lease._id = leaseId := by
  cases changed with
  | none => exact requireLease_conducted leaseId
  | some lease => exact hc lease rfl

theorem assertOwnership_conducted (lease : SandboxLease) (expected : SandboxOwnership) :
    Conducted options directory key (assertOwnership lease expected) h fun _ h' => h' = h := by
  unfold assertOwnership
  split_ifs
  · trivial
  · rfl

theorem transition_conducted {leaseId : ObjectId} {source : List SandboxLeaseState}
    {target : SandboxLeaseState} {set : LeasePatch}
    (hready : target = .ready → MayReady directory h leaseId)
    (hterminated : target = .terminated → MayTerminate h leaseId) :
    Conducted options directory key (transition leaseId source target set) h fun changed h' =>
      h' = ⟨.transition leaseId source target set, .ok changed⟩ :: h ∧
        ∀ lease, changed = some lease → Latest h' lease ∧ lease._id = leaseId := by
  refine Conducted.ite (fun _ => trivial) fun hsource => ?_
  push Not at hsource
  refine Conducted.last (.transition leaseId source target set)
    ⟨hsource.2, hready, hterminated⟩ fun changed hc => ⟨rfl, ?_⟩
  rintro lease rfl
  exact ⟨⟨_, h, rfl, mem_found lease⟩, hc.transition.1⟩

theorem terminatedAt_conducted {leaseId : ObjectId}
    (hmay : ∀ now, MayTerminate (⟨.now, now⟩ :: h) leaseId) :
    Conducted options directory key (terminatedAt leaseId) h fun changed h' =>
      ∀ lease, changed = some lease → Latest h' lease ∧ lease._id = leaseId := by
  refine Conducted.step .now trivial fun now _ => ?_
  exact (transition_conducted (fun ht => by cases ht) fun _ => hmay _).mono fun _ _ _ hc => hc.2

theorem cleanupFailedProvisioning_conducted {lease : SandboxLease} {ref : SandboxRef}
    (saw : Saw h lease) (bound : lease.ref? = some ref) :
    Conducted options directory key (cleanupFailedProvisioning lease ref) h fun _ _ => True := by
  refine Conducted.andThen (transition_conducted (fun ht => by cases ht) fun ht => by cases ht) ?_
  rintro changed h₁ - ⟨rfl, -⟩
  refine Conducted.attempted
    (Conducted.last (.destroy ref) (.failedProvisioning saw bound) fun _ _ => rfl) ?_
    fun _ _ _ => trivial
  rintro receipt h₂ - rfl
  refine Conducted.ite (fun _ => trivial) fun hpending => ?_
  refine (terminatedAt_conducted fun now => ?_).andThen fun _ _ _ _ => trivial
  exact .destroyed (saw.cons _) bound (by simpa using hpending)

theorem readOwnedBundle_conducted (artifact : SourceArtifact) (workspaceId projectId : ObjectId) :
    Conducted options directory key (readOwnedBundle artifact workspaceId projectId) h
      fun bundle _ => bundle = directory.artifact artifact workspaceId projectId :=
  Conducted.tryCatch (Conducted.last (.readOwnedBundle artifact workspaceId projectId) trivial
    fun _ hb => hb.readOwnedBundle) fun _ _ _ => trivial

theorem hydrate_conducted {lease : SandboxLease} {ref : SandboxRef} (saw : Saw h lease)
    (bound : lease.ref? = some ref) :
    Conducted options directory key (hydrate options lease ref) h fun changed h' =>
      ∀ ready, changed = some ready → Latest h' ready ∧ ready._id = lease._id := by
  refine (readOwnedBundle_conducted ..).andThen fun bundle h₁ hsub hbundle => ?_
  subst hbundle
  refine Conducted.step (.connect ref) trivial fun connected _ => ?_
  refine Conducted.step (.waitUntilReady ref _) trivial fun waited _ => ?_
  refine Conducted.step (.writeFiles ref _) trivial fun written _ => ?_
  refine Conducted.step .now trivial fun readyAt _ => ?_
  refine Conducted.step .now trivial fun heartbeatAt _ => ?_
  refine (transition_conducted (fun _ => ?_) fun ht => by cases ht).mono fun _ _ _ hc => hc.2
  exact .hydrated (((saw.mono hsub).cons _).cons _) bound

theorem resumeProvisioning_conducted (leaseId : ObjectId) :
    Conducted options directory key (resumeProvisioning options leaseId) h fun _ _ => True := by
  refine (requireLease_conducted leaseId).andThen fun lease h₁ _ ⟨hlatest, hid⟩ => ?_
  refine Conducted.ite (fun _ => trivial) fun _ => ?_
  split
  · rename_i hstate href
    refine (requireProvider_conducted _).andThen fun _ h₂ _ heq => ?_
    subst heq
    refine (Conducted.tryCatch (hydrate_conducted hlatest.saw href) fun e h₃ hsub => ?_).andThen
      fun ready h₃ _ hready => ?_
    · refine (cleanupFailedProvisioning_conducted (hlatest.saw.mono hsub) href).andThen ?_
      exact fun _ _ _ _ => Conducted.ite (fun _ => trivial) fun _ => trivial
    · exact (orRequire_conducted fun l hl => hid ▸ hready l hl).mono fun _ _ _ _ => trivial
  · trivial

theorem assertCapabilities_conducted (spec : SandboxSpec) (kind : String) :
    Conducted options directory key (assertCapabilities spec kind) h fun _ _ => True := by
  have hdescribe : Conducted options directory key ((perform (.describe kind)).tryCatch fun _ =>
      sandboxError .providerUnavailable "Sandbox Provider is unavailable" true) h
      fun _ _ => True :=
    Conducted.tryCatch (Conducted.last (.describe kind) trivial fun _ _ => trivial)
      fun _ _ _ => trivial
  refine hdescribe.andThen fun capabilities _ _ _ => ?_
  split <;> trivial

/-- A reservation that was made before. -/
theorem reuseOrReject_conducted {existing : SandboxLease} {input : SandboxReservationRecord}
    (saw : Saw h existing) (hkey : existing.provisioningKey = input.provisioningKey) :
    Conducted options directory key (reuseOrReject existing input) h fun lease h' =>
      Saw h' lease ∧ lease.provisioningKey = input.provisioningKey := by
  unfold reuseOrReject
  split_ifs
  · exact ⟨saw, hkey⟩
  · trivial

theorem createReserved_conducted {input : SandboxReservationRecord}
    (hmay : MayCreate directory
      (⟨.findByProvisioningKey input.provisioningKey, .ok none⟩ :: h) input) :
    Conducted options directory key (createReserved input) h fun lease h' =>
      Saw h' lease ∧ lease.provisioningKey = input.provisioningKey := by
  refine Conducted.step (.findByProvisioningKey input.provisioningKey) trivial
    fun existing hexisting => ?_
  cases existing with
  | some existing =>
    exact reuseOrReject_conducted ⟨_, List.mem_cons_self, mem_found existing⟩
      hexisting.findByProvisioningKey
  | none =>
    refine Conducted.tryCatch (Conducted.last (.createLease input) hmay fun lease hl => ?_)
      fun e h₁ _ => ?_
    · exact ⟨⟨_, List.mem_cons_self, List.mem_singleton_self lease⟩,
        congrArg SandboxReservationRecord.provisioningKey hl.createLease⟩
    · refine Conducted.ite (fun _ => trivial) fun _ => ?_
      refine Conducted.step (.findByProvisioningKey input.provisioningKey) trivial
        fun concurrent hc => ?_
      cases concurrent with
      | none => trivial
      | some concurrent =>
        exact reuseOrReject_conducted ⟨_, List.mem_cons_self, mem_found concurrent⟩
          hc.findByProvisioningKey

section Reservation

variable {request : SandboxReservationRecord}

theorem assertRequestShape_conducted :
    Conducted options directory key (assertRequestShape request) h fun _ h' => h' = h := by
  unfold assertRequestShape
  exact Conducted.ite (fun _ => trivial) fun _ => rfl

theorem accessible_some {workspace : Option WorkspaceDocument} {project : Option ProjectDocument}
    {branch : Option BranchDocument} {membership : Bool} {w : WorkspaceDocument}
    {p : ProjectDocument}
    (ha : accessible request workspace project branch membership = some (w, p)) :
    workspace = some w ∧ project = some p ∧ p.workspaceId = some request.workspaceId := by
  unfold accessible at ha
  split at ha
  · split_ifs at ha with hc
    cases ha
    exact ⟨rfl, rfl, hc.2.1⟩
  · cases ha

theorem insertReservation_conducted {projectCount : ℕ} {usage : WorkspaceUsage}
    {project : ProjectDocument} {workspace : WorkspaceDocument}
    (lock : lockOf h = some request.workspaceId)
    (hproject : directory.project request.projectId = some project)
    (hworkspace : directory.workspace request.workspaceId = some workspace)
    (owner : project.workspaceId = some request.workspaceId)
    (fits : exceedsQuota request project workspace.executionLimits projectCount usage = false) :
    Conducted options directory key (insertReservation request)
      (⟨.workspaceUsage request.workspaceId, .ok usage⟩ ::
        ⟨.countProject request.projectId request.purpose, .ok projectCount⟩ :: h)
      fun lease h' => Saw h' lease ∧ lease.provisioningKey = request.provisioningKey := by
  refine Conducted.step (.assertHeld request.workspaceId) trivial fun _ _ => ?_
  refine Conducted.tryCatch (createReserved_conducted ?_) fun e h₁ _ => ?_
  · exact .counted lock hproject hworkspace owner fits
  · exact Conducted.ite (fun _ => trivial) fun _ => trivial

variable (request) in
theorem checkQuota_conducted {project : ProjectDocument} {workspace : WorkspaceDocument}
    (lock : lockOf h = some request.workspaceId)
    (hproject : directory.project request.projectId = some project)
    (hworkspace : directory.workspace request.workspaceId = some workspace)
    (owner : project.workspaceId = some request.workspaceId) :
    Conducted options directory key (checkQuota request project workspace.executionLimits) h
      fun lease h' => Saw h' lease ∧ lease.provisioningKey = request.provisioningKey := by
  have hbusy : Conducted options directory key (branchBusy request) h
      fun _ h' => lockOf h' = some request.workspaceId :=
    Conducted.ite (fun _ => Conducted.last (.branchBusy request.branchId) trivial
      fun _ _ => lock) fun _ => lock
  refine hbusy.andThen fun busy h₁ _ lock => ?_
  refine Conducted.ite (fun _ => trivial) fun _ => ?_
  refine Conducted.step (.countProject request.projectId request.purpose) trivial
    fun projectCount _ => ?_
  refine Conducted.step (.workspaceUsage request.workspaceId) trivial fun usage _ => ?_
  refine Conducted.ite (fun _ => trivial) fun hfits => ?_
  exact insertReservation_conducted lock hproject hworkspace owner (by simpa using hfits)

variable (request) in
theorem reserveLocked_conducted (lock : lockOf h = some request.workspaceId) :
    Conducted options directory key (reserveLocked request) h fun lease h' =>
      Saw h' lease ∧ lease.provisioningKey = request.provisioningKey := by
  refine assertRequestShape_conducted.andThen fun _ h₁ _ heq => ?_
  subst heq
  refine Conducted.step .now trivial fun reservedAt _ => ?_
  refine Conducted.step (.findWorkspace request.workspaceId) trivial fun workspace hw => ?_
  refine Conducted.step (.findProject request.projectId) trivial fun project hp => ?_
  refine Conducted.step (.findBranch request.branchId) trivial fun branch _ => ?_
  refine Conducted.step (.isMember request.workspaceId request.requestedByUserId) trivial
    fun membership _ => ?_
  cases ha : accessible request workspace project branch membership with
  | none => trivial
  | some pair =>
    obtain ⟨w, p⟩ := pair
    obtain ⟨rfl, rfl, owner⟩ := accessible_some ha
    refine Conducted.step (.findByProvisioningKey request.provisioningKey) trivial
      fun existing hexisting => ?_
    cases existing with
    | some existing =>
      have hsaw : ∀ earlier, Saw (⟨.findByProvisioningKey request.provisioningKey,
          .ok (some existing)⟩ :: earlier) existing :=
        fun earlier => ⟨_, List.mem_cons_self, mem_found existing⟩
      exact createReserved_conducted (.again ((hsaw _).cons _) hexisting.findByProvisioningKey)
    | none =>
      exact checkQuota_conducted { request with reservedAt := reservedAt } lock
        hp.findProject hw.findWorkspace owner

theorem withWorkspaceLock_conducted {α : Type} {workspaceId : ObjectId}
    {callback : SandboxPromise α} {Q : α → SandboxHistory → Prop}
    (hc : ∀ r, Conducted options directory key callback (⟨.lock workspaceId, .ok r⟩ :: h) Q)
    (hQ : ∀ a h' x, Q a h' → Q a (x :: h')) :
    Conducted options directory key (withWorkspaceLock workspaceId callback) h Q := by
  refine Conducted.step (.lock workspaceId) trivial fun r _ => ?_
  refine Conducted.tryFinally (Conducted.tryCatch (hc r) fun _ _ _ => trivial)
    (fun a h₁ ha => ?_) fun h₁ => ?_
  · exact Conducted.last (.unlock workspaceId) trivial fun _ _ => hQ a h₁ _ ha
  · exact Conducted.last (.unlock workspaceId) trivial fun _ _ => trivial

variable (request) in
theorem reserve_conducted :
    Conducted options directory key (reserve request) h fun lease h' =>
      Saw h' lease ∧ lease.provisioningKey = request.provisioningKey :=
  withWorkspaceLock_conducted (fun _ => reserveLocked_conducted request rfl)
    fun _ _ x hl => ⟨hl.1.cons x, hl.2⟩

end Reservation

theorem createResource_conducted {lease : SandboxLease} (spec : SandboxSpec) (kind : String) :
    Conducted options directory key ((perform (.create kind spec)).tryCatch fun error => do
      match error.notCreated? with
      | none => .throw error
      | some e =>
        let _ : Option SandboxLease ← transition lease._id [.provisioning] .failed
          { error := some { code := e.code, message := e.message, retryable := e.retryable } }
        .throw error) h fun ref _ => key ref = spec.provisioningKey := by
  refine Conducted.tryCatch (Conducted.last (.create kind spec) trivial fun _ hr => hr.create)
    fun e h₁ _ => ?_
  cases e.notCreated? with
  | none => trivial
  | some e =>
    exact (transition_conducted (fun ht => by cases ht) fun ht => by cases ht).andThen
      fun _ _ _ _ => trivial

theorem bindResource_conducted {lease seen : SandboxLease} {spec : SandboxSpec} {kind : String}
    (saw : Saw h seen) (hid : seen._id = lease._id)
    (hkey : seen.provisioningKey = spec.provisioningKey) :
    Conducted options directory key (bindResource lease spec kind) h fun _ _ => True := by
  refine (createResource_conducted spec kind).andThen fun ref h₁ hsub href => ?_
  refine Conducted.step (.bindExternalId lease._id ref)
    ⟨seen, saw.mono hsub, hid, href.trans hkey.symm⟩ fun bound hb => ?_
  refine (orRequire_conducted fun l hl => ?_).andThen fun found h₂ _ _ => ?_
  · subst hl
    exact ⟨⟨_, h₁, rfl, mem_found l⟩, hb.bindExternalId⟩
  · exact Conducted.ite (fun _ => trivial) fun _ => trivial

theorem enterProvisioning_conducted (lease : SandboxLease) :
    Conducted options directory key (enterProvisioning lease) h
      fun found _ => found._id = lease._id := by
  refine Conducted.ite (fun _ => ?_) fun _ => rfl
  refine (transition_conducted (fun ht => by cases ht) fun ht => by cases ht).andThen
    fun changed h₁ _ hc => ?_
  exact (orRequire_conducted hc.2).mono fun _ _ _ hf => hf.2

theorem createBuildSandbox_conducted (input : CreateBuildSandboxInput) :
    Conducted options directory key (createBuildSandbox options input) h fun _ _ => True := by
  refine (requireProvider_conducted _).andThen fun _ _ _ _ => ?_
  refine Conducted.checked.andThen fun _ _ _ _ => Conducted.checked.andThen fun _ _ _ _ => ?_
  refine (readOwnedBundle_conducted ..).andThen fun _ _ _ _ => ?_
  refine (assertCapabilities_conducted ..).andThen fun _ _ _ _ => ?_
  refine Conducted.step .now trivial fun requestedAt _ => ?_
  refine (reserve_conducted _).andThen fun lease h₁ _ ⟨saw, hkey⟩ => ?_
  refine Conducted.ite (fun _ => trivial) fun _ => ?_
  refine (enterProvisioning_conducted lease).andThen fun found h₂ hsub hid => ?_
  refine Conducted.ite (fun _ => trivial) fun _ => ?_
  refine Conducted.ite (fun _ => resumeProvisioning_conducted _) fun _ => ?_
  exact (bindResource_conducted (saw.mono hsub) hid.symm hkey).andThen fun _ _ _ _ =>
    resumeProvisioning_conducted _

theorem enterTerminating_conducted {lease : SandboxLease} (hl : Latest h lease) :
    Conducted options directory key (enterTerminating lease) h
      fun found h' => Latest h' found ∧ found._id = lease._id := by
  refine Conducted.ite (fun _ => ?_) fun _ => ⟨hl, rfl⟩
  refine (transition_conducted (fun ht => by cases ht) fun ht => by cases ht).andThen
    fun changed h₁ _ hc => ?_
  exact orRequire_conducted hc.2

theorem terminate_conducted (leaseId : ObjectId) (expected : SandboxOwnership) :
    Conducted options directory key (terminate options leaseId expected) h fun _ _ => True := by
  refine (requireLease_conducted leaseId).andThen fun lease h₁ _ ⟨hlatest, _⟩ => ?_
  refine (assertOwnership_conducted ..).andThen fun _ h₂ _ heq => ?_
  subst heq
  refine Conducted.ite (fun _ => trivial) fun _ => ?_
  refine (enterTerminating_conducted hlatest).andThen fun found h₃ _ ⟨hfound, _⟩ => ?_
  refine Conducted.ite (fun _ => trivial) fun hstate => ?_
  have hstate : found.state = .terminating := by simpa using hstate
  split
  · rename_i href
    refine (terminatedAt_conducted fun now => ?_).andThen fun done h₄ _ hdone => ?_
    · exact .unbound (hfound.saw.cons _) hstate href
    · exact (orRequire_conducted hdone).mono fun _ _ _ _ => trivial
  · rename_i ref href
    refine (requireProvider_conducted _).andThen fun _ h₄ _ heq => ?_
    subst heq
    obtain ⟨x, earlier, rfl, hread⟩ := hfound
    refine Conducted.step (.destroy ref) (.terminating hread hstate href) fun receipt _ => ?_
    have hsaw : Saw (x :: earlier) found := ⟨x, List.mem_cons_self, hread⟩
    refine Conducted.ite (fun _ => ?_) fun _ => ?_
    · exact (requireLease_conducted _).mono fun _ _ _ _ => trivial
    refine Conducted.step (.inspect ref) trivial fun inspection _ => ?_
    refine Conducted.ite (fun _ => ?_) fun hstatus => ?_
    · exact (requireLease_conducted _).mono fun _ _ _ _ => trivial
    refine (terminatedAt_conducted fun now => ?_).andThen fun done h₅ _ hdone => ?_
    · exact .missing (hsaw.cons _) hstate href (by simpa using hstatus)
    · exact (orRequire_conducted hdone).mono fun _ _ _ _ => trivial

end AppBuilder.Sandbox
