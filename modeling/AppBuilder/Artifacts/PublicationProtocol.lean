import AppBuilder.Artifacts.StorePaths

/-! The order in which `put` and `get` use the file system. -/
namespace AppBuilder.Artifacts.SharedFilesystem
open Async Encoding
open SharedFilesystemArtifactStore (tempPathFor putCatch putFinally getCatch)

/-- What a `put` is about to publish, and where. -/
structure Publication where
  finalPath : Text
  tempPath : Text
  bytes : List ℕ

/-- The phases of `put` from `preparing` to `forgone`, and of `get` from `seeking` to `short`. A
`put` is `published` by its `link`, or `lost` when the `link` has found a blob. -/
inductive FilePhase where
  | preparing (plan : Publication)
  | writing (plan : Publication) (id : FileId) (written : List ℕ)
  | written (plan : Publication) (id : FileId)
  | published (plan : Publication) (id : FileId)
  | settled (plan : Publication) (id : FileId)
  | leaving (plan : Publication) (id : FileId)
  | lost (plan : Publication) (id : FileId)
  | forgone
  | seeking (path : Text)
  | opened (path : Text) (handle : Node)
  | reading (path : Text) (id : FileId) (size : ℕ) (read : List ℕ)
  | short
  | finished

inductive FilePermit (store : SharedFilesystemArtifactStore) : FilePhase → FileOp → Prop where
  | lstat {φ} (path : Text) : FilePermit store φ (.lstat path)
  | directorySync {φ} (path : Text) : FilePermit store φ (.directorySync path)
  | close {φ} (handle : Node) : FilePermit store φ (.close handle)
  | mkdir {plan path} (h : ¬ store.Final path) : FilePermit store (.preparing plan) (.mkdir path)
  | openNew {plan} : FilePermit store (.preparing plan) (.openNew plan.tempPath)
  | append {plan id written byte} (h : written ++ [byte] <+: plan.bytes) :
    FilePermit store (.writing plan id written) (.append id byte)
  | sync {plan id} : FilePermit store (.writing plan id plan.bytes) (.sync id)
  | link {plan id} : FilePermit store (.written plan id) (.link plan.tempPath plan.finalPath)
  | settle {plan id} : FilePermit store (.published plan id) (.unlink plan.tempPath)
  | unlink {plan id} : FilePermit store (.leaving plan id) (.unlink plan.tempPath)
  | forgo {plan id} : FilePermit store (.lost plan id) (.unlink plan.tempPath)
  | openRead {path} : FilePermit store (.seeking path) (.openRead path)
  | stat {path handle} : FilePermit store (.opened path handle) (.stat handle)
  | statAgain {path id size} : FilePermit store (.reading path id size []) (.stat (.file id))
  | read {path id size read} (h : read.length < size) :
    FilePermit store (.reading path id size read) (.read id read.length)

/-- Only what is a file is read. -/
def FilePhase.checked (path : Text) (handle : Node) (stats : Stats) : FilePhase :=
  match handle with
  | .file id => .reading path id stats.size []
  | .directory | .symbolicLink => .opened path handle

def FilePhase.next : FilePhase → (op : FileOp) → fileApi.Answer op → FilePhase
  | .preparing plan, .openNew _, .ok id => .writing plan id []
  | .preparing _, .openNew _, .error _ => .finished
  | .writing plan id part, .append _ byte, .ok _ => .writing plan id (part ++ [byte])
  | .writing plan id _, .append .., .error _ => .leaving plan id
  | .writing plan id _, .sync _, .ok _ => .written plan id
  | .writing plan id _, .sync _, .error _ => .leaving plan id
  | .written plan id, .close _, .error _ => .leaving plan id
  | .written plan id, .link .., .ok _ => .published plan id
  | .written plan id, .link .., .error e =>
    if isCode e "EEXIST" then .lost plan id else .leaving plan id
  | .published plan id, .unlink _, _ => .settled plan id
  | .leaving .., .unlink _, _ => .finished
  | .lost plan id, .directorySync _, .error _ => .leaving plan id
  | .lost .., .unlink _, _ => .forgone
  | .seeking path, .openRead _, .ok handle => .opened path handle
  | .opened path handle, .stat _, .ok stats => .checked path handle stats
  | .reading path id _ read, .stat _, .ok stats => .reading path id stats.size read
  | .reading path id size read, .read .., .ok (some byte) => .reading path id size (read ++ [byte])
  | .reading .., .read .., .ok none => .short
  | φ, _, _ => φ

def publicationProtocol (store : SharedFilesystemArtifactStore) : Protocol fileApi FilePhase :=
  ⟨FilePermit store, fun _ _ => True, FilePhase.next⟩

/-- The error of a `put` that finds a blob. -/
def alreadyExists : StoreError :=
  artifactError .writeFailed "artifact already exists" false (some ⟨some "EEXIST"⟩)

section Walk

variable {store : SharedFilesystemArtifactStore} {plan : Publication} {id : FileId} {φ : FilePhase}

theorem next_lstat (path : Text) (r : fileApi.Answer (.lstat path)) :
    φ.next (.lstat path) r = φ := by
  cases φ <;> rfl

theorem next_close_ok (handle : Node) : φ.next (.close handle) (.ok ()) = φ := by
  cases φ <;> rfl

theorem assertDirectory_tracks (path : Text) (φ : FilePhase) :
    (publicationProtocol store).Tracks (assertDirectory path) φ (fun _ ψ => ψ = φ)
      (fun _ ψ => ψ = φ) := by
  refine Protocol.tracks_step (.lstat path) (fun node _ => ?_) fun e _ =>
    next_lstat path (.error e)
  rw [show (publicationProtocol store).next φ (.lstat path) (.ok node) = φ from next_lstat path _]
  show (publicationProtocol store).Tracks (ite _ _ _) _ _ _
  split
  · exact rfl
  · exact rfl

theorem ensureComponent_tracks {location : List Text} {component : Text} {parents : List Text}
    (hroot : Path.names store.root ≠ []) (hlength : location.length < 3)
    (hlocation : ∀ s ∈ location ++ [component], Path.Plain s) :
    (publicationProtocol store).Tracks
      (ensureComponent (Path.below store.root location, parents) component) (.preparing plan)
      (fun state ψ => ψ = .preparing plan ∧
        state.1 = Path.below store.root (location ++ [component]))
      (fun _ ψ => ψ = .preparing plan) := by
  have hjoin := join_below hroot (fun s hs => hlocation s (List.mem_append_left _ hs))
    (hlocation component (by simp))
  have hnot : ¬ store.Final (Path.below store.root (location ++ [component])) :=
    not_final_below (by rw [List.length_append, List.length_singleton]; omega) hlocation
  have hmkdir : (publicationProtocol store).Tracks
      ((performFile (.mkdir (Path.below store.root (location ++ [component])))).tryCatch fun error =>
        if isCode error "EEXIST" then return () else .throw error) (.preparing plan)
      (fun _ ψ => ψ = .preparing plan) (fun _ ψ => ψ = .preparing plan) := by
    refine (Protocol.tracks_tryCatch ..).mpr ((Protocol.tracks_perform _).mpr ⟨.mkdir hnot, ?_, ?_⟩)
    · exact fun _ _ => rfl
    · intro e _
      show (publicationProtocol store).Tracks (ite _ _ _) _ _ _
      split
      · exact rfl
      · exact rfl
  rw [ensureComponent, hjoin]
  refine (Protocol.tracks_bind ..).mpr (hmkdir.mono ?_ fun _ _ h => h)
  rintro - ψ rfl
  refine (Protocol.tracks_bind ..).mpr ((assertDirectory_tracks _ _).mono ?_ fun _ _ h => h)
  rintro - ψ rfl
  exact ⟨rfl, rfl⟩

theorem ensureComponents_tracks (hroot : Path.names store.root ≠ []) (components : List Text) :
    ∀ (location parents : List Text), location.length + components.length ≤ 3 →
      (∀ s ∈ location ++ components, Path.Plain s) →
      (publicationProtocol store).Tracks
        (Prog.foldEach ensureComponent (Path.below store.root location, parents) components)
        (.preparing plan) (fun _ ψ => ψ = .preparing plan) (fun _ ψ => ψ = .preparing plan) := by
  induction components with
  | nil => exact fun _ _ _ _ => rfl
  | cons component components ih =>
    intro location parents hlength hplain
    rw [List.length_cons] at hlength
    have hfirst : ∀ s ∈ location ++ [component], Path.Plain s := fun s hs => hplain s (by
      simp only [List.mem_append, List.mem_cons] at hs ⊢
      tauto)
    rw [Prog.foldEach]
    refine (Protocol.tracks_bind ..).mpr ((ensureComponent_tracks hroot (by omega) hfirst).mono ?_
      fun _ _ h => h)
    rintro ⟨current, parents'⟩ ψ ⟨rfl, rfl⟩
    refine ih _ _ ?_ ?_
    · rw [List.length_append, List.length_singleton]
      omega
    · rwa [List.append_assoc, List.singleton_append]

theorem ensureSafeParent_tracks {storageKey path : Text}
    (hkey : store.resolveKey storageKey = .ok path) :
    (publicationProtocol store).Tracks (store.ensureSafeParent (dirname path)) (.preparing plan)
      (fun _ ψ => ψ = .preparing plan) (fun _ ψ => ψ = .preparing plan) := by
  obtain ⟨⟨a, b, name, hsegments⟩, hroot, rfl⟩ := resolveKey_ok hkey
  have hparent : dirname (Path.below store.root (Path.segments storageKey)) =
      Path.below store.root [text "v1", a, b] := by
    have hplain : ∀ s ∈ [text "v1", a, b] ++ [name], Path.Plain s := by
      have hall := hsegments.plain
      rwa [Path.IsPlain, hsegments.segments] at hall
    rw [hsegments.segments]
    exact @dirname_below store [text "v1", a, b] name hroot hplain
  have hcomponents := @components_below store _ (List.cons_ne_nil _ _) hsegments.plain_parent
  rw [hparent, SharedFilesystemArtifactStore.ensureSafeParent, hcomponents]
  refine (Protocol.tracks_bind ..).mpr ((assertDirectory_tracks _ _).mono ?_ fun _ _ h => h)
  rintro - ψ rfl
  have hloop := @ensureComponents_tracks store plan hroot [text "v1", a, b] [] [] le_rfl
    hsegments.plain_parent
  rw [below_nil] at hloop
  refine (Protocol.tracks_bind ..).mpr (hloop.mono ?_ fun _ _ h => h)
  rintro state ψ rfl
  generalize state.2 = namespaceParents
  refine @Protocol.tracks_foldEach _ _ _ (publicationProtocol store) _ _ _
    (fun _ ψ => ψ = .preparing plan) namespaceParents ?_ () _ rfl
  rintro - namespaceParent ψ rfl -
  exact (Protocol.tracks_perform _).mpr ⟨.directorySync _, fun _ _ => rfl, fun _ _ => rfl⟩

theorem writeFile_tracks (rest : List ℕ) : ∀ written, plan.bytes = written ++ rest →
    (publicationProtocol store).Tracks (writeFile id rest) (.writing plan id written)
      (fun _ ψ => ψ = .writing plan id plan.bytes) (fun _ ψ => ψ = .leaving plan id) := by
  induction rest with
  | nil =>
    intro written hbytes
    rw [List.append_nil] at hbytes
    rw [hbytes]
    exact rfl
  | cons byte rest ih =>
    intro written hbytes
    have hsplit : plan.bytes = (written ++ [byte]) ++ rest := by simpa using hbytes
    exact Protocol.tracks_step (.append ⟨rest, hsplit.symm⟩) (fun _ _ => ih _ hsplit)
      fun _ _ => rfl

theorem await_tracks {α : Type} {locals : PutLocals} {p : FilePromise α}
    {next : α → FilePromise (Except StoreError Unit × PutLocals)}
    {Q : Except StoreError Unit × PutLocals → FilePhase → Prop} {X : StoreError → FilePhase → Prop}
    (h : (publicationProtocol store).Tracks p φ
      (fun a ψ => (publicationProtocol store).Tracks (next a) ψ Q X)
      (fun e ψ => Q (.error e, locals) ψ)) :
    (publicationProtocol store).Tracks (locals.await p next) φ Q X :=
  (Protocol.tracks_bind ..).mpr ((Protocol.tracks_attempt ..).mpr h)

/-- How the `try` block of `put` ends. -/
inductive TryEnd (plan : Publication) : Except StoreError Unit × PutLocals → FilePhase → Prop where
  | unopened {ψ : FilePhase} (e : StoreError) (h : ψ = .preparing plan ∨ ψ = .finished) :
    TryEnd plan (.error e, {}) ψ
  | published (id : FileId) : TryEnd plan (.ok (), { tempCreated := true }) (.published plan id)
  | unsynced (id : FileId) (e : StoreError) :
    TryEnd plan (.error e, { tempCreated := true }) (.published plan id)
  | failed (id : FileId) (e : StoreError) (handle : Option FileId) :
    TryEnd plan (.error e, { handle, tempCreated := true }) (.leaving plan id)
  | unlinked (id : FileId) (e : StoreError) (h : isCode e "EEXIST" = false) :
    TryEnd plan (.error e, { tempCreated := true, publishing := true }) (.leaving plan id)
  | lost (id : FileId) (e : StoreError) (h : isCode e "EEXIST" = true) :
    TryEnd plan (.error e, { tempCreated := true, publishing := true }) (.lost plan id)

theorem putTry_tracks {storageKey : Text} (hkey : store.resolveKey storageKey = .ok plan.finalPath)
    {X : StoreError → FilePhase → Prop} :
    (publicationProtocol store).Tracks (store.putTry plan.finalPath plan.tempPath plan.bytes)
      (.preparing plan) (TryEnd plan) X := by
  refine await_tracks ((ensureSafeParent_tracks hkey).mono ?_ ?_)
  · rintro - ψ rfl
    refine await_tracks ((Protocol.tracks_perform _).mpr ⟨.openNew, fun handle _ => ?_, ?_⟩)
    · refine await_tracks ((writeFile_tracks plan.bytes [] rfl).mono ?_ ?_)
      · rintro - ψ rfl
        refine await_tracks ((Protocol.tracks_perform _).mpr ⟨.sync, fun _ _ => ?_, ?_⟩)
        · refine await_tracks ((Protocol.tracks_perform _).mpr ⟨.close _, fun _ _ => ?_, ?_⟩)
          · refine await_tracks ((Protocol.tracks_perform _).mpr ⟨.link, fun _ _ => ?_, ?_⟩)
            · refine await_tracks ((Protocol.tracks_perform _).mpr
                ⟨.directorySync _, fun _ _ => ?_, fun e _ => ?_⟩)
              · exact .published handle
              · exact .unsynced handle e
            · intro e _
              show TryEnd plan _ (ite _ _ _)
              split_ifs with hexists
              · exact .lost handle e hexists
              · exact .unlinked handle e (Bool.eq_false_iff.mpr hexists)
          · exact fun e _ => .failed handle e (some handle)
        · exact fun e _ => .failed handle e (some handle)
      · rintro e ψ rfl
        exact .failed handle e (some handle)
    · exact fun e _ => .unopened e (.inr rfl)
  · rintro e ψ rfl
    exact .unopened e (.inl rfl)

end Walk

section Put

variable {store : SharedFilesystemArtifactStore} {plan : Publication} {id : FileId} {φ : FilePhase}
  {locals : PutLocals} {e : StoreError}

theorem eexist_of_isCode (h : isCode e "EEXIST" = true) : e = .node ⟨some "EEXIST"⟩ := by
  cases e with
  | node error =>
    obtain ⟨code⟩ := error
    have hcode : code = some "EEXIST" := eq_of_beq h
    rw [hcode]
  | artifact error cause =>
    exfalso
    revert h
    simp only [isCode]
    cases error.code <;> decide

theorem putCatch_plain (finalPath : Text) (h : (locals.publishing && isCode e "EEXIST") = false) :
    (publicationProtocol store).Tracks (putCatch finalPath locals e) φ (fun _ _ => False)
      (fun _ ψ => ψ = φ) := by
  cases e with
  | artifact error cause => exact rfl
  | node cause =>
    rw [putCatch, h]
    exact rfl

theorem putCatch_lost (finalPath : Text) (hpublishing : locals.publishing = true)
    (h : isCode e "EEXIST" = true) :
    (publicationProtocol store).Tracks (putCatch finalPath locals e) (.lost plan id)
      (fun _ _ => False)
      (fun e' ψ => ψ = .leaving plan id ∨ ψ = .lost plan id ∧ e' = alreadyExists) := by
  have he := eexist_of_isCode h
  subst he
  rw [putCatch, hpublishing, h]
  refine (Protocol.tracks_bind ..).mpr ((Protocol.tracks_tryCatch ..).mpr
    ((Protocol.tracks_perform _).mpr ⟨.directorySync _, fun _ _ => ?_, fun _ _ => ?_⟩))
  · exact .inr ⟨rfl, rfl⟩
  · exact .inl rfl

theorem putFinally_none (tempPath : Text) {X : StoreError → FilePhase → Prop} :
    (publicationProtocol store).Tracks (putFinally tempPath {}) φ (fun _ ψ => ψ = φ) X := rfl

/-- The temporary file goes when it was created. -/
theorem putFinally_created {tempPath : Text} {next : FilePhase} {X : StoreError → FilePhase → Prop}
    (hcreated : locals.tempCreated = true) (hpermit : FilePermit store φ (.unlink tempPath))
    (hclose : ∀ handle r, φ.next (.close handle) r = φ)
    (hnext : ∀ r, φ.next (.unlink tempPath) r = next) :
    (publicationProtocol store).Tracks (putFinally tempPath locals) φ (fun _ ψ => ψ = next) X := by
  have hremove : (publicationProtocol store).Tracks (do
      if locals.tempCreated then
        let _ ← (removeTemp tempPath).attempt
      return ()) φ (fun _ ψ => ψ = next) X := by
    rw [if_pos hcreated]
    exact (Protocol.tracks_bind ..).mpr (Protocol.tracks_attempted hpermit fun r _ => hnext r)
  rw [putFinally]
  cases locals.handle with
  | none => exact hremove
  | some handle =>
    refine (Protocol.tracks_bind ..).mpr (Protocol.tracks_attempted (.close _) fun r _ => ?_)
    rw [show (publicationProtocol store).next φ _ r = φ from hclose _ r]
    exact hremove

/-- A `put` has published or found its blob, or has failed otherwise. -/
def PutThrows (plan : Publication) (e : StoreError) (φ : FilePhase) : Prop :=
  φ = .preparing plan ∨ φ = .finished ∨ (∃ id, φ = .settled plan id) ∨ φ = .forgone ∧ e = alreadyExists

theorem putEnd_tracks {result : Except StoreError Unit} (h : TryEnd plan (result, locals) φ) :
    (publicationProtocol store).Tracks
      (Prog.tryFinally
        (match result with
        | .ok () => return ()
        | .error error => putCatch plan.finalPath locals error)
        (putFinally plan.tempPath locals)) φ (fun _ ψ => ∃ id, ψ = .settled plan id)
      (PutThrows plan) := by
  have hleaving : ∀ id locals, locals.tempCreated = true →
      ∀ X, (publicationProtocol store).Tracks (putFinally plan.tempPath locals) (.leaving plan id)
        (fun _ ψ => ψ = .finished) X :=
    fun id locals hcreated X => putFinally_created hcreated .unlink (fun _ r => by cases r <;> rfl)
      fun r => by cases r <;> rfl
  have hpublished : ∀ id locals, locals.tempCreated = true →
      ∀ X, (publicationProtocol store).Tracks (putFinally plan.tempPath locals) (.published plan id)
        (fun _ ψ => ψ = .settled plan id) X :=
    fun id locals hcreated X => putFinally_created hcreated .settle (fun _ r => by cases r <;> rfl)
      fun r => by cases r <;> rfl
  refine (Protocol.tracks_tryFinally ..).mpr ?_
  cases h with
  | unopened e h =>
    refine (putCatch_plain _ rfl).mono (fun _ _ h => h.elim) ?_
    rintro e' ψ rfl
    refine (putFinally_none plan.tempPath).mono ?_ fun _ _ h => h
    rintro - ψ rfl
    exact h.imp_right .inl
  | published id => exact (hpublished id _ rfl _).mono (fun _ _ h => ⟨id, h⟩) fun _ _ h => h
  | unsynced id e =>
    refine (putCatch_plain _ rfl).mono (fun _ _ h => h.elim) ?_
    rintro e' ψ rfl
    exact (hpublished id _ rfl _).mono (fun _ _ h => .inr (.inr (.inl ⟨id, h⟩))) fun _ _ h => h
  | failed id e handle =>
    refine (putCatch_plain _ rfl).mono (fun _ _ h => h.elim) ?_
    rintro e' ψ rfl
    exact (hleaving id _ rfl _).mono (fun _ _ h => .inr (.inl h)) fun _ _ h => h
  | unlinked id e h =>
    refine (putCatch_plain _ (by rw [h]; rfl)).mono (fun _ _ h => h.elim) ?_
    rintro e' ψ rfl
    exact (hleaving id _ rfl _).mono (fun _ _ h => .inr (.inl h)) fun _ _ h => h
  | lost id e h =>
    refine (putCatch_lost _ rfl h).mono (fun _ _ h => h.elim) ?_
    rintro e' ψ (rfl | ⟨rfl, rfl⟩)
    · exact (hleaving id _ rfl _).mono (fun _ _ h => .inr (.inl h)) fun _ _ h => h
    · refine (@putFinally_created _ _ _ _ .forgone _ rfl .forgo ?_ ?_).mono ?_ fun _ _ h => h
      · exact fun _ r => by cases r <;> rfl
      · exact fun r => by cases r <;> rfl
      · exact fun _ _ h => .inr (.inr (.inr ⟨h, rfl⟩))

def planOf (finalPath random : Text) (bytes : List ℕ) : Publication :=
  ⟨finalPath, tempPathFor finalPath random, bytes⟩

theorem put_tracks {storageKey path : Text} (bytes : List ℕ) (random : Text)
    (hkey : store.resolveKey storageKey = .ok path) :
    (publicationProtocol store).Tracks (store.put storageKey bytes random)
      (.preparing (planOf path random bytes))
      (fun _ ψ => ∃ id, ψ = .settled (planOf path random bytes) id)
      (PutThrows (planOf path random bytes)) := by
  have htry := @putTry_tracks store (planOf path random bytes) storageKey hkey
    (PutThrows (planOf path random bytes))
  rw [SharedFilesystemArtifactStore.put, hkey]
  refine (Protocol.tracks_bind ..).mpr (htry.mono ?_ fun _ _ h => h)
  rintro ⟨result, locals⟩ ψ hend
  have hdone := @putEnd_tracks store (planOf path random bytes) ψ locals result hend
  exact hdone

end Put

section Get

variable {store : SharedFilesystemArtifactStore} {path : Text} {id : FileId}

theorem assertComponent_tracks (current component : Text) (φ : FilePhase) :
    (publicationProtocol store).Tracks (assertComponent current component) φ (fun _ ψ => ψ = φ)
      (fun _ ψ => ψ = φ) := by
  refine (Protocol.tracks_bind ..).mpr ((assertDirectory_tracks _ φ).mono ?_ fun _ _ h => h)
  exact fun _ ψ h => h

theorem assertComponents_tracks (current : Text) (components : List Text) (φ : FilePhase) :
    (publicationProtocol store).Tracks (Prog.foldEach assertComponent current components) φ
      (fun _ ψ => ψ = φ) (fun _ ψ => ψ = φ) := by
  refine @Protocol.tracks_foldEach _ _ _ (publicationProtocol store) _ _ _ (fun _ ψ => ψ = φ) _
    ?_ _ _ rfl
  rintro current component ψ rfl -
  exact assertComponent_tracks current component ψ

theorem assertSafeParent_tracks (parent : Text) (φ : FilePhase) :
    (publicationProtocol store).Tracks (store.assertSafeParent parent) φ (fun _ ψ => ψ = φ)
      (fun _ ψ => ψ = φ) := by
  rw [SharedFilesystemArtifactStore.assertSafeParent]
  refine (Protocol.tracks_bind ..).mpr ((assertDirectory_tracks _ φ).mono ?_ fun _ _ h => h)
  rintro - ψ rfl
  -- the components must not be computed when the two programs are compared
  generalize store.components parent = components
  refine (Protocol.tracks_bind ..).mpr ((assertComponents_tracks _ components _).mono ?_
    fun _ _ h => h)
  exact fun _ ψ h => h

theorem openRegularFile_tracks :
    (publicationProtocol store).Tracks (openRegularFile path) (.seeking path)
      (fun handle ψ => (∃ id size, handle = .file id ∧ ψ = .reading path id size []) ∨
        ∀ id, handle ≠ .file id)
      (fun _ _ => True) := by
  refine Protocol.tracks_step .openRead (fun handle _ => ?_) fun _ _ => trivial
  refine (Protocol.tracks_tryCatch ..).mpr (Protocol.tracks_step .stat (fun stats _ => ?_) ?_)
  · show (publicationProtocol store).Tracks (ite _ _ _) _ _ _
    split
    · cases handle with
      | file id => exact .inl ⟨id, stats.size, rfl, rfl⟩
      | directory => exact .inr fun _ h => nomatch h
      | symbolicLink => exact .inr fun _ h => nomatch h
    · exact (Protocol.tracks_bind ..).mpr (Protocol.tracks_attempted (.close _) fun _ _ => trivial)
  · exact fun _ _ => (Protocol.tracks_bind ..).mpr
      (Protocol.tracks_attempted (.close _) fun _ _ => trivial)

/-- A `get` has read as many bytes as the file has. -/
def GetReturns (path : Text) (bytes : List ℕ) (φ : FilePhase) : Prop :=
  (∃ id, φ = .reading path id bytes.length bytes) ∨ φ = .short

theorem readFrom_tracks {size : ℕ} (n : ℕ) : ∀ read : List ℕ, read.length + n = size →
    (publicationProtocol store).Tracks (readFrom id read n) (.reading path id size read)
      (GetReturns path) (fun _ _ => True) := by
  induction n with
  | zero =>
    rintro read rfl
    exact .inl ⟨id, rfl⟩
  | succ n ih =>
    intro read hsize
    refine Protocol.tracks_step (.read (by omega)) (fun byte _ => ?_) fun _ _ => trivial
    cases byte with
    | some byte => exact ih _ (by rw [List.length_append, List.length_singleton]; omega)
    | none => exact .inr rfl

theorem get_tracks {storageKey : Text} (hkey : store.resolveKey storageKey = .ok path) :
    (publicationProtocol store).Tracks (store.get storageKey) (.seeking path) (GetReturns path)
      (fun _ _ => True) := by
  have hcatch : ∀ e ψ, (publicationProtocol store).Tracks (getCatch e) ψ (GetReturns path)
      (fun _ _ => True) := by
    intro e ψ
    cases e with
    | artifact error cause => trivial
    | node cause =>
      rw [getCatch]
      split_ifs <;> trivial
  rw [SharedFilesystemArtifactStore.get, hkey]
  refine (Protocol.tracks_tryCatch ..).mpr ((Protocol.tracks_bind ..).mpr
    ((assertSafeParent_tracks _ _).mono ?_ fun e ψ _ => hcatch e ψ))
  rintro - ψ rfl
  refine (Protocol.tracks_bind ..).mpr (openRegularFile_tracks.mono ?_ fun e ψ _ => hcatch e ψ)
  intro handle ψ hopened
  refine (Protocol.tracks_tryFinally ..).mpr ?_
  have hclose : ∀ handle χ bytes, GetReturns path bytes χ → (publicationProtocol store).Tracks
      (performFile (.close handle)) χ (fun _ ω => GetReturns path bytes ω)
      (fun e ω => (publicationProtocol store).Tracks (getCatch e) ω (GetReturns path)
        (fun _ _ => True)) := by
    intro handle χ bytes hread
    refine (Protocol.tracks_perform _).mpr ⟨.close handle, fun _ _ => ?_, fun e _ => hcatch e _⟩
    rw [show (publicationProtocol store).next χ _ _ = χ from next_close_ok handle]
    exact hread
  have hfail : ∀ handle e χ, (publicationProtocol store).Tracks (performFile (.close handle)) χ
      (fun _ ω => (publicationProtocol store).Tracks (getCatch e) ω (GetReturns path)
        (fun _ _ => True))
      (fun e ω => (publicationProtocol store).Tracks (getCatch e) ω (GetReturns path)
        (fun _ _ => True)) := fun handle e χ =>
    (Protocol.tracks_perform _).mpr ⟨.close handle, fun _ _ => hcatch e _, fun e _ => hcatch e _⟩
  rcases hopened with ⟨id, size, rfl, rfl⟩ | hnone
  · refine Protocol.tracks_step .statAgain (fun stats _ => ?_) fun e _ => hfail _ e _
    refine (readFrom_tracks stats.size [] (by simp)).mono ?_ ?_
    · exact fun bytes χ hread => hclose _ χ bytes hread
    · exact fun e χ _ => hfail _ e χ
  · cases handle with
    | file id => exact absurd rfl (hnone id)
    | directory => exact hfail _ _ ψ
    | symbolicLink => exact hfail _ _ ψ

end Get

/-- The phase in which a call starts. -/
def StoreCall.start (store : SharedFilesystemArtifactStore) : StoreCall → FilePhase
  | .put storageKey bytes random =>
    match store.resolveKey storageKey with
    | .ok path => .preparing (planOf path random bytes)
    | .error _ => .finished
  | .get storageKey =>
    match store.resolveKey storageKey with
    | .ok path => .seeking path
    | .error _ => .finished

def StoreCall.Returns (store : SharedFilesystemArtifactStore) (call : StoreCall)
    (result : Option (List ℕ)) (φ : FilePhase) : Prop :=
  match call with
  | .put .. => ∃ plan id, φ = .settled plan id
  | .get storageKey => ∃ path bytes, store.resolveKey storageKey = .ok path ∧
      result = some bytes ∧ GetReturns path bytes φ

def StoreCall.Throws (call : StoreCall) (error : StoreError) (φ : FilePhase) : Prop :=
  match call with
  | .put .. => (∃ plan, φ = .preparing plan) ∨ φ = .finished ∨ (∃ plan id, φ = .settled plan id) ∨
      φ = .forgone ∧ error = alreadyExists
  | .get _ => True

def publicationConformance (store : SharedFilesystemArtifactStore) :
    Conformance (sharing store) (publicationProtocol store) where
  start := StoreCall.start store
  crash := id
  returns := StoreCall.Returns store
  throws := StoreCall.Throws
  body_tracks call := by
    cases call with
    | put storageKey bytes random =>
      show (publicationProtocol store).Tracks (StoreCall.body store (.put storageKey bytes random)) _ _ _
      rw [StoreCall.start]
      cases hkey : store.resolveKey storageKey with
      | ok path =>
        refine (Protocol.tracks_bind ..).mpr ((put_tracks bytes random hkey).mono
          (fun _ _ h => ⟨_, h⟩) ?_)
        exact fun e ψ h => h.imp (fun h => ⟨_, h⟩) (Or.imp_right (Or.imp_left fun h => ⟨_, h⟩))
      | error e =>
        rw [StoreCall.body, SharedFilesystemArtifactStore.put, hkey]
        exact .inr (.inl rfl)
    | get storageKey =>
      show (publicationProtocol store).Tracks (StoreCall.body store (.get storageKey)) _ _ _
      rw [StoreCall.start]
      cases hkey : store.resolveKey storageKey with
      | ok path =>
        refine (Protocol.tracks_bind ..).mpr ((get_tracks hkey).mono ?_ fun _ _ h => h)
        exact fun bytes ψ h => ⟨path, bytes, hkey, rfl, h⟩
      | error e =>
        rw [StoreCall.body, SharedFilesystemArtifactStore.get, hkey]
        trivial
  possible _ _ _ := trivial

end AppBuilder.Artifacts.SharedFilesystem
