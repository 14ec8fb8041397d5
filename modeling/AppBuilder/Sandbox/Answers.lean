import AppBuilder.Sandbox.Conduct

/-! The answers that sandbox calls rely on, and the rules by which a call is checked. -/
namespace AppBuilder.Sandbox
open Agent Async

variable {options : SandboxServiceOptions} {directory : Directory} {key : SandboxRef → String}

/-- The lease that an update answers. -/
theorem updateLease_answer {w : SandboxWorld key} {u : LeaseUpdate} {updated : SandboxLease}
    (h : (w.updateLease u.leaseId u.accepts u.patch).1 = .ok (some updated)) :
    ∃ lease updatedAt, lease._id = u.leaseId ∧ u.accepts lease = true ∧
      updated = { u.patch lease with updatedAt } := by
  have hu := w.updateLease_updated u
  cases hr : w.updateLease u.leaseId u.accepts u.patch with
  | mk r w' =>
    rw [hr] at h hu
    cases hu with
    | refused => cases h
    | collided => cases h
    | replaced lease stored accepted admitted =>
      exact ⟨lease, w.clock, SandboxWorld.lease?_id stored, accepted,
        (Option.some.inj (Except.ok.inj h)).symm⟩

theorem Possible.exec {op : SandboxOp} {v : op.Reply} (h : Possible directory key op (.ok v)) :
    ∃ (t : ThreadId) (w : SandboxWorld key), (w.exec directory t op).1 = .ok v := by
  obtain h | ⟨e, he, -⟩ := h
  · exact h
  · cases he

theorem Possible.findLease {leaseId : ObjectId} {lease : SandboxLease}
    (h : Possible directory key (.findLease leaseId) (.ok (some lease))) : lease._id = leaseId := by
  obtain ⟨t, w, hr⟩ := h.exec
  exact SandboxWorld.lease?_id (Except.ok.inj hr)

theorem Possible.findByProvisioningKey {k : String} {lease : SandboxLease}
    (h : Possible directory key (.findByProvisioningKey k) (.ok (some lease))) :
    lease.provisioningKey = k := by
  obtain ⟨t, w, hr⟩ := h.exec
  simpa using List.find?_some (Except.ok.inj hr)

theorem Possible.createLease {record : SandboxReservationRecord} {lease : SandboxLease}
    (h : Possible directory key (.createLease record) (.ok lease)) :
    lease.toSandboxReservationRecord = record := by
  obtain ⟨t, w, hr⟩ := h.exec
  simp only [SandboxWorld.exec, SandboxWorld.createLease] at hr
  split_ifs at hr
  cases hr
  rfl

theorem Possible.transition {leaseId : ObjectId} {source : List SandboxLeaseState}
    {target : SandboxLeaseState} {set : LeasePatch} {lease : SandboxLease}
    (h : Possible directory key (.transition leaseId source target set) (.ok (some lease))) :
    lease._id = leaseId ∧ lease.state = target := by
  obtain ⟨t, w, hr⟩ := h.exec
  obtain ⟨old, updatedAt, hid, -, rfl⟩ := updateLease_answer
    (u := ⟨leaseId, fun lease => source.contains lease.state,
      fun lease => { set.apply lease with state := target }⟩) hr
  exact ⟨hid, rfl⟩

theorem Possible.bindExternalId {leaseId : ObjectId} {ref : SandboxRef} {lease : SandboxLease}
    (h : Possible directory key (.bindExternalId leaseId ref) (.ok (some lease))) :
    lease._id = leaseId := by
  obtain ⟨t, w, hr⟩ := h.exec
  obtain ⟨old, updatedAt, hid, -, rfl⟩ := updateLease_answer
    (u := ⟨leaseId, fun lease => lease.state == .provisioning && lease.provider == ref.provider &&
        lease.externalId == none,
      fun lease => { lease with externalId := some ref.externalId }⟩) hr
  exact hid

theorem Possible.readOwnedBundle {artifact : SourceArtifact} {workspaceId projectId : ObjectId}
    {bundle : Store.ProjectArtifactBundle}
    (h : Possible directory key (.readOwnedBundle artifact workspaceId projectId) (.ok bundle)) :
    bundle = directory.artifact artifact workspaceId projectId := by
  obtain ⟨t, w, hr⟩ := h.exec
  exact (Except.ok.inj hr).symm

theorem Possible.create {kind : String} {spec : SandboxSpec} {ref : SandboxRef}
    (h : Possible directory key (.create kind spec) (.ok ref)) :
    key ref = spec.provisioningKey := by
  obtain ⟨t, w, hr⟩ := h.exec
  cases hr
  exact (w.providers.create_key kind spec).2

theorem Possible.list {kind k : String} {filter : SandboxListFilter} {refs : List SandboxRef}
    (h : Possible directory key (.list kind filter) (.ok refs))
    (hk : filter.provisioningKey = some k) : ∀ ref ∈ refs, key ref = k := by
  obtain ⟨t, w, hr⟩ := h.exec
  cases hr
  exact fun ref href => (w.providers.list_key kind filter ref href).2 k hk

theorem Possible.findWorkspace {workspaceId : ObjectId} {workspace : Option WorkspaceDocument}
    (h : Possible directory key (.findWorkspace workspaceId) (.ok workspace)) :
    directory.workspace workspaceId = workspace := by
  obtain ⟨t, w, hr⟩ := h.exec
  exact Except.ok.inj hr

theorem Possible.findProject {projectId : ObjectId} {project : Option ProjectDocument}
    (h : Possible directory key (.findProject projectId) (.ok project)) :
    directory.project projectId = project := by
  obtain ⟨t, w, hr⟩ := h.exec
  exact Except.ok.inj hr

/-- What the services' own memory answers. -/
theorem Possible.noError {op : SandboxOp} {e : Failure} (hop : op.inMemory = true)
    (h : Possible directory key op (.error e)) : False := by
  obtain ⟨t, w, hr⟩ | ⟨e', -, hf⟩ := h
  · cases op <;> first | cases hr | cases hop
  · cases op <;> simp [SandboxOp.mayFail, SandboxOp.inMemory] at hf hop

section Rules

variable {α β : Type} {p : SandboxPromise α} {h : SandboxHistory}
  {Q : α → SandboxHistory → Prop} {R : β → SandboxHistory → Prop}

variable (options directory key)

/-- The program keeps to the conduct, and `Q` relates what it returns to what it has seen. -/
def Conducted (p : SandboxPromise α) (h : SandboxHistory) (Q : α → SandboxHistory → Prop) : Prop :=
  (conduct options directory key).Tracks p h Q fun _ _ => True

variable {options directory key}

theorem Conducted.mono {Q' : α → SandboxHistory → Prop}
    (hp : Conducted options directory key p h Q) (hQ : ∀ a h', h <:+ h' → Q a h' → Q' a h') :
    Conducted options directory key p h Q' :=
  (Protocol.Tracks.extends hp).mono (fun a h' ha => hQ a h' ha.1 ha.2) fun _ _ _ => trivial

theorem Conducted.andThen {f : α → SandboxPromise β} (hp : Conducted options directory key p h Q)
    (hf : ∀ a h', h <:+ h' → Q a h' → Conducted options directory key (f a) h' R) :
    Conducted options directory key (p.bind f) h R := Protocol.tracks_then hp hf

theorem Conducted.step (op : SandboxOp) {f : op.Reply → SandboxPromise β}
    (hop : Conduct options directory key h op)
    (hf : ∀ v, Possible directory key op (.ok v) →
      Conducted options directory key (f v) (⟨op, .ok v⟩ :: h) R) :
    Conducted options directory key ((perform op).bind f) h R :=
  Protocol.tracks_step hop hf fun _ _ => trivial

theorem Conducted.last (op : SandboxOp) {Q : op.Reply → SandboxHistory → Prop}
    (hop : Conduct options directory key h op)
    (hQ : ∀ v, Possible directory key op (.ok v) → Q v (⟨op, .ok v⟩ :: h)) :
    Conducted options directory key (perform op) h Q :=
  (Protocol.tracks_perform h).mpr ⟨hop, hQ, fun _ _ => trivial⟩

theorem Conducted.ite {c : Prop} [Decidable c] {p' : SandboxPromise α}
    (hc : c → Conducted options directory key p h Q)
    (hn : ¬ c → Conducted options directory key p' h Q) :
    Conducted options directory key (if c then p else p') h Q := by
  split
  · exact hc ‹_›
  · exact hn ‹_›

theorem Conducted.tryCatch {handler : Failure → SandboxPromise α}
    (hp : Conducted options directory key p h Q)
    (hh : ∀ e h', h <:+ h' → Conducted options directory key (handler e) h' Q) :
    Conducted options directory key (p.tryCatch handler) h Q :=
  (Protocol.tracks_tryCatch ..).mpr ((Protocol.Tracks.extends hp).mono (fun _ _ ha => ha.2)
    fun e h' he => hh e h' he.1)

/-- The exception becomes a value. -/
theorem Conducted.attempted {f : Except Failure α → SandboxPromise β}
    (hp : Conducted options directory key p h Q)
    (hok : ∀ a h', h <:+ h' → Q a h' → Conducted options directory key (f (.ok a)) h' R)
    (herror : ∀ e h', h <:+ h' → Conducted options directory key (f (.error e)) h' R) :
    Conducted options directory key (p.attempt.bind f) h R := by
  refine (Protocol.tracks_bind ..).mpr ((Protocol.tracks_attempt ..).mpr ?_)
  exact (Protocol.Tracks.extends hp).mono (fun a h' ha => hok a h' ha.1 ha.2)
    fun e h' he => herror e h' he.1

theorem Conducted.tryFinally {q : SandboxPromise Unit} {Q' : α → SandboxHistory → Prop}
    (hp : Conducted options directory key p h Q)
    (hq : ∀ a h', Q a h' → Conducted options directory key q h' fun _ h'' => Q' a h'')
    (herror : ∀ h', Conducted options directory key q h' fun _ _ => True) :
    Conducted options directory key (p.tryFinally q) h Q' :=
  (Protocol.tracks_tryFinally ..).mpr (Protocol.Tracks.mono hp hq fun _ h' _ => herror h')

/-- A loop that awaits what is allowed whatever came before. -/
theorem Conducted.foldEach {σ : Type} {f : σ → α → SandboxPromise σ} {s : σ} {xs : List α}
    {inv : σ → SandboxHistory → Prop} (hs : inv s h)
    (hf : ∀ s x h', inv s h' → x ∈ xs → Conducted options directory key (f s x) h' inv) :
    Conducted options directory key (Prog.foldEach f s xs) h inv :=
  Protocol.tracks_foldEach hf hs

theorem Conducted.checked {x : Except Failure α} :
    Conducted options directory key (check x) h fun a h' => h' = h ∧ x = .ok a := by
  cases x with
  | error e => trivial
  | ok a => exact ⟨rfl, rfl⟩

end Rules

end AppBuilder.Sandbox
