import AppBuilder.Artifacts.PublicationProtocol

/-! Blobs are published whole and at most once, whatever processes write, read and crash. -/
namespace AppBuilder.Artifacts.SharedFilesystem
open Async Encoding
open SharedFilesystemArtifactStore (tempPathFor)

/-- What a step of `m` leaves alone: files belong to the calls that have created them, and so do
their names; and what has been published stays. -/
structure FileMoves (store : SharedFilesystemArtifactStore) (m : Option ThreadId)
    (w w' : FileWorld) : Prop where
  files : ∀ (id : FileId) (f : FileContent), w.files[id]? = some f → m ≠ some f.owner →
    w'.files[id]? = some f
  made : ∀ (id : FileId) (f : FileContent), w'.files[id]? = some f →
    (∃ g : FileContent, w.files[id]? = some g ∧ g.owner = f.owner) ∨ m = some f.owner
  named : ∀ path (id : FileId) (f : FileContent), w.files[id]? = some f → m ≠ some f.owner →
    (w'.names path = some (.file id) ↔ w.names path = some (.file id))
  published : ∀ path node, store.Final path → w.names path = some node →
    w'.names path = some node
  kept : ∀ path id, store.Final path → w.names path = some (.file id) →
    w'.files[id]? = w.files[id]?

theorem FileMoves.refl (store : SharedFilesystemArtifactStore) (m : Option ThreadId)
    (w : FileWorld) : FileMoves store m w w :=
  ⟨fun _ _ h _ => h, fun _ f h => .inl ⟨f, h, rfl⟩, fun _ _ _ _ _ => .rfl, fun _ _ _ h => h,
    fun _ _ _ _ => rfl⟩

/-- Every name of a file stands for one, every file has its call, and only files are published. -/
structure FileShared (store : SharedFilesystemArtifactStore) (n : ℕ) (w : FileWorld) : Prop where
  known : ∀ path id, w.names path = some (.file id) → ∃ f, w.files[id]? = some f
  owned : ∀ (id : FileId) (f : FileContent), w.files[id]? = some f → f.owner < n
  final : ∀ path node, store.Final path → w.names path = some node → ∃ id, node = .file id

/-- The call is the `put` that the plan is made for. -/
def Publication.For (plan : Publication) (store : SharedFilesystemArtifactStore)
    (call : StoreCall) : Prop :=
  ∃ storageKey random, call = .put storageKey plan.bytes random ∧
    store.resolveKey storageKey = .ok plan.finalPath ∧
    plan.tempPath = tempPathFor plan.finalPath random

/-- What a thread knows in a phase. -/
def FilePhase.Own (store : SharedFilesystemArtifactStore) (t : ThreadId) (call : StoreCall)
    (w : FileWorld) : FilePhase → Prop
  | .preparing plan => plan.For store call ∧
      ∀ (id : FileId) (f : FileContent), w.files[id]? = some f → f.owner ≠ t
  | .writing plan id part => plan.For store call ∧ w.files[id]? = some ⟨t, part⟩ ∧
      w.names plan.tempPath = some (.file id) ∧
      ∀ path, store.Final path → w.names path ≠ some (.file id)
  | .written plan id => plan.For store call ∧ w.files[id]? = some ⟨t, plan.bytes⟩ ∧
      w.names plan.tempPath = some (.file id)
  | .published plan id => plan.For store call ∧ w.files[id]? = some ⟨t, plan.bytes⟩ ∧
      w.names plan.tempPath = some (.file id) ∧ w.names plan.finalPath = some (.file id)
  | .settled plan id => plan.For store call ∧ w.files[id]? = some ⟨t, plan.bytes⟩ ∧
      w.names plan.finalPath = some (.file id)
  | .leaving plan id | .lost plan id => plan.For store call ∧
      (∃ bytes, w.files[id]? = some ⟨t, bytes⟩) ∧ w.names plan.tempPath = some (.file id)
  | .seeking path => store.Final path
  | .opened path handle => store.Final path ∧ w.names path = some handle
  | .reading path id size read => store.Final path ∧ w.names path = some (.file id) ∧
      ∃ f : FileContent, w.files[id]? = some f ∧ f.bytes.length = size ∧ read <+: f.bytes
  | .short => False
  | .forgone | .finished => True

/-- A published file of the thread holds what its call was to put there. -/
def Published (store : SharedFilesystemArtifactStore) (t : ThreadId) (call : StoreCall)
    (w : FileWorld) : Prop :=
  ∀ path (id : FileId) (f : FileContent), store.Final path → w.names path = some (.file id) →
    w.files[id]? = some f → f.owner = t → ∃ storageKey random, call = .put storageKey f.bytes random ∧
      store.resolveKey storageKey = .ok path

section Steps

variable {store : SharedFilesystemArtifactStore} {t u : ThreadId} {call : StoreCall}
  {w w' : FileWorld} {φ : FilePhase} {m : Option ThreadId}

theorem Published.kept (h : Published store u call w) (hm : FileMoves store m w w')
    (hu : m ≠ some u) : Published store u call w' := by
  intro path id f hpath hname hfile howner
  rcases hm.made id f hfile with ⟨before, hbefore, hsameOwner⟩ | hmade
  · have hother : m ≠ some before.owner := by rwa [hsameOwner, howner]
    have hname' := (hm.named path id before hbefore hother).mp hname
    cases Option.some.inj ((hm.files id before hbefore hother).symm.trans hfile)
    exact h path id f hpath hname' hbefore howner
  · exact absurd (howner ▸ hmade) hu

/-- What a thread knows survives the steps of the others. -/
theorem FilePhase.Own.kept (h : φ.Own store u call w) (hm : FileMoves store m w w')
    (hu : m ≠ some u) : φ.Own store u call w' := by
  cases φ with
  | preparing plan =>
    refine ⟨h.1, fun id f hfile howner => ?_⟩
    rcases hm.made id f hfile with ⟨g, hg, hgo⟩ | hmade
    · exact h.2 id g hg (hgo.trans howner)
    · exact hu (howner ▸ hmade)
  | writing plan id written =>
    obtain ⟨hfor, hfile, htemp, hfinal⟩ := h
    have hnamed := fun path => hm.named path id _ hfile hu
    exact ⟨hfor, hm.files id _ hfile hu, (hnamed _).mpr htemp,
      fun path hpath hname => hfinal path hpath ((hnamed path).mp hname)⟩
  | written plan id =>
    obtain ⟨hfor, hfile, htemp⟩ := h
    exact ⟨hfor, hm.files id _ hfile hu, (hm.named _ id _ hfile hu).mpr htemp⟩
  | published plan id =>
    obtain ⟨hfor, hfile, htemp, hfinal⟩ := h
    exact ⟨hfor, hm.files id _ hfile hu, (hm.named _ id _ hfile hu).mpr htemp,
      (hm.named _ id _ hfile hu).mpr hfinal⟩
  | settled plan id =>
    obtain ⟨hfor, hfile, hfinal⟩ := h
    exact ⟨hfor, hm.files id _ hfile hu, (hm.named _ id _ hfile hu).mpr hfinal⟩
  | leaving plan id =>
    obtain ⟨hfor, ⟨bytes, hfile⟩, htemp⟩ := h
    exact ⟨hfor, ⟨bytes, hm.files id _ hfile hu⟩, (hm.named _ id _ hfile hu).mpr htemp⟩
  | lost plan id =>
    obtain ⟨hfor, ⟨bytes, hfile⟩, htemp⟩ := h
    exact ⟨hfor, ⟨bytes, hm.files id _ hfile hu⟩, (hm.named _ id _ hfile hu).mpr htemp⟩
  | forgone => trivial
  | seeking path => exact h
  | opened path handle => exact ⟨h.1, hm.published path _ h.1 h.2⟩
  | reading path id size read =>
    obtain ⟨hpath, hname, f, hfile, hsize, hread⟩ := h
    exact ⟨hpath, hm.published path _ hpath hname, f, (hm.kept path id hpath hname).trans hfile,
      hsize, hread⟩
  | short => exact h
  | finished => trivial

/-- A step of a call keeps the invariant, gives the next phase what it knows and moves as it may. -/
structure FileStep (store : SharedFilesystemArtifactStore) (n : ℕ) (t : ThreadId)
    (call : StoreCall) (w w' : FileWorld) (φ' : FilePhase) : Prop where
  shared : FileShared store n w'
  own : φ'.Own store t call w'
  published : Published store t call w'
  moves : FileMoves store (some t) w w'

end Steps

section Steps

variable {store : SharedFilesystemArtifactStore} {n : ℕ} {t : ThreadId} {call : StoreCall}
  {w w' : FileWorld} {φ φ' : FilePhase} {plan : Publication} {id : FileId} {path : Text} {node : Node}

theorem FileStep.same (h : FileShared store n w) (hown : φ'.Own store t call w)
    (hpub : Published store t call w) : FileStep store n t call w w φ' := ⟨h, hown, hpub, .refl ..⟩

theorem create_exists (h : w.names path ≠ none) : w.create path node = (errno "EEXIST", w) := if_pos h

/-- A name is new, or nothing has changed. -/
theorem create_cases (w : FileWorld) (path : Text) (node : Node) :
    (∃ code, w.create path node = (errno code, w)) ∨
      w.names path = none ∧ w.create path node = (.ok (), w.setName path (some node)) := by
  unfold FileWorld.create
  split_ifs with hexists hparent
  · exact .inl ⟨_, rfl⟩
  · exact .inl ⟨_, rfl⟩
  · exact .inr ⟨not_not.mp hexists, rfl⟩

theorem names_setName (w : FileWorld) (path q : Text) (node : Option Node) :
    (w.setName path node).names q = if q = path then node else w.names q :=
  Function.update_apply ..

/-- A new name of a file of the caller, or of a directory. -/
theorem moves_setName (hnone : w.names path = none)
    (hnode : ∀ id, node = .file id → ∃ bytes, w.files[id]? = some ⟨t, bytes⟩) :
    FileMoves store (some t) w (w.setName path (some node)) := by
  have hother : ∀ q x, w.names q = some x → q ≠ path := by
    rintro q x hq rfl
    rw [hnone] at hq
    cases hq
  refine ⟨fun _ _ h _ => h, fun _ f h => .inl ⟨f, h, rfl⟩, ?_, ?_, fun _ _ _ _ => rfl⟩
  · intro q id f hfile howner
    rw [names_setName]
    split_ifs with hq
    · subst hq
      constructor
      · intro hname
        obtain ⟨bytes, hbytes⟩ := hnode id (Option.some.inj hname)
        cases Option.some.inj (hbytes.symm.trans hfile)
        exact absurd rfl howner
      · intro hname
        exact absurd rfl (hother _ _ hname)
    · rfl
  · intro q x _ hq
    rw [names_setName, if_neg (hother q x hq)]
    exact hq

theorem shared_setName (h : FileShared store n w)
    (hnode : ∀ id, node = .file id → ∃ f, w.files[id]? = some f)
    (hfinal : store.Final path → ∃ id, node = .file id) :
    FileShared store n (w.setName path (some node)) := by
  refine ⟨fun q id hname => ?_, h.owned, fun q x hq hname => ?_⟩
  · rw [names_setName] at hname
    split_ifs at hname
    · exact hnode id (Option.some.inj hname)
    · exact h.known q id hname
  · rw [names_setName] at hname
    split_ifs at hname with he
    · subst he
      obtain ⟨id, hid⟩ := hfinal hq
      exact ⟨id, (Option.some.inj hname).symm.trans hid⟩
    · exact h.final q x hq hname

theorem mkdir_step (h : FileShared store n w) (hown : (FilePhase.preparing plan).Own store t call w)
    (hpub : Published store t call w) (hnot : ¬ store.Final path) :
    FileStep store n t call w (w.create path .directory).2 (.preparing plan) := by
  rcases create_cases w path .directory with ⟨code, hcreate⟩ | ⟨hnone, hcreate⟩
  · rw [hcreate]
    exact .same h hown hpub
  · rw [hcreate]
    refine ⟨shared_setName h (fun _ he => nomatch he) fun hf => absurd hf hnot, hown, ?_,
      moves_setName hnone fun _ he => nomatch he⟩
    intro q id f hq hname hfile howner
    have hne : q ≠ path := by
      rintro rfl
      exact hnot hq
    rw [names_setName, if_neg hne] at hname
    exact hpub q id f hq hname hfile howner

/-- The temporary path of a plan is no final path. -/
theorem Publication.For.not_final (h : plan.For store call) : ¬ store.Final plan.tempPath := by
  obtain ⟨-, random, -, -, htemp⟩ := h
  rw [htemp]
  exact not_final_temp _ random

theorem Publication.For.ne (h : plan.For store call) : plan.finalPath ≠ plan.tempPath := by
  intro he
  have hnot := h.not_final
  obtain ⟨storageKey, -, -, hkey, -⟩ := h
  exact hnot (he ▸ ⟨storageKey, hkey⟩)

/-- The world with the new file. -/
def FileWorld.opened (w : FileWorld) (t : ThreadId) (path : Text) : FileWorld :=
  { w.setName path (some (.file w.files.length)) with files := w.files ++ [⟨t, []⟩] }

theorem openNew_cases (t : ThreadId) (w : FileWorld) (path : Text) :
    (∃ code, FileWorld.exec t (.openNew path) w = (errno code, w)) ∨
      w.names path = none ∧
        FileWorld.exec t (.openNew path) w = (.ok w.files.length, w.opened t path) := by
  rw [FileWorld.exec]
  rcases create_cases w path (.file w.files.length) with ⟨code, hcreate⟩ | ⟨hnone, hcreate⟩
  · rw [hcreate]
    exact .inl ⟨code, rfl⟩
  · rw [hcreate]
    exact .inr ⟨hnone, rfl⟩

theorem file_opened {f : FileContent} (h : (w.opened t path).files[id]? = some f) :
    w.files[id]? = some f ∨ id = w.files.length ∧ f = ⟨t, []⟩ := by
  rw [FileWorld.opened, List.getElem?_append] at h
  split_ifs at h with hlt
  · exact .inl h
  · have hlast : id = w.files.length := by
      have hbound := (List.getElem?_eq_some_iff.mp h).1
      have hzero : id - w.files.length < 1 := hbound
      exact Nat.le_antisymm (Nat.le_of_sub_eq_zero (Nat.lt_one_iff.mp hzero)) (Nat.le_of_not_lt hlt)
    rw [hlast, Nat.sub_self] at h
    exact .inr ⟨hlast, (Option.some.inj h).symm⟩

theorem opened_step (h : FileShared store n w) (hn : t < n)
    (hown : (FilePhase.preparing plan).Own store t call w) (hnone : w.names plan.tempPath = none) :
    FileStep store n t call w (w.opened t plan.tempPath) (.writing plan w.files.length []) := by
  obtain ⟨hfor, hfresh⟩ := hown
  have hold : ∀ (id : FileId) (f : FileContent), w.files[id]? = some f →
      (w.opened t plan.tempPath).files[id]? = some f := by
    intro id f hf
    exact (List.getElem?_append_left (List.getElem?_eq_some_iff.mp hf).1).trans hf
  have hknown : ∀ q id, w.names q = some (.file id) → id ≠ w.files.length := by
    rintro q id hname rfl
    obtain ⟨f, hf⟩ := h.known q _ hname
    simp at hf
  have hname : ∀ q, (w.opened t plan.tempPath).names q =
      if q = plan.tempPath then some (.file w.files.length) else w.names q :=
    fun q => names_setName ..
  have hfinal : ∀ q, store.Final q → (w.opened t plan.tempPath).names q = w.names q := by
    refine fun q hq => (hname q).trans (if_neg ?_)
    rintro rfl
    exact hfor.not_final hq
  refine ⟨⟨?_, ?_, ?_⟩, ⟨hfor, by simp [FileWorld.opened], ?_, ?_⟩, ?_, ⟨?_, ?_, ?_, ?_, ?_⟩⟩
  · intro q id hq
    rw [hname] at hq
    split_ifs at hq
    · cases Option.some.inj hq
      exact ⟨⟨t, []⟩, by simp [FileWorld.opened]⟩
    · obtain ⟨f, hf⟩ := h.known q id hq
      exact ⟨f, hold id f hf⟩
  · intro id f hf
    rcases file_opened hf with hf | ⟨-, rfl⟩
    · exact h.owned id f hf
    · exact hn
  · intro q x hq hx
    rw [hfinal q hq] at hx
    exact h.final q x hq hx
  · rw [hname, if_pos rfl]
  · intro q hq hx
    rw [hfinal q hq] at hx
    exact hknown q _ hx rfl
  · intro q id f hq hx hf howner
    rw [hfinal q hq] at hx
    rcases file_opened hf with hf | ⟨rfl, -⟩
    · exact absurd howner (hfresh id f hf)
    · exact absurd rfl (hknown q _ hx)
  · exact fun id f hf _ => hold id f hf
  · intro id f hf
    rcases file_opened hf with hf | ⟨-, rfl⟩
    · exact .inl ⟨f, hf, rfl⟩
    · exact .inr rfl
  · intro q id f hf _
    rw [hname]
    split_ifs with hq
    · subst hq
      rw [hnone]
      have hlt := (List.getElem?_eq_some_iff.mp hf).1
      constructor
      · intro he
        cases Option.some.inj he
        omega
      · exact fun he => nomatch he
    · rfl
  · intro q x hq hx
    rw [hfinal q hq]
    exact hx
  · intro q id hq hx
    obtain ⟨f, hf⟩ := h.known q id hx
    rw [hf]
    exact hold id f hf

theorem file_write (w : FileWorld) (id other : FileId) (byte : ℕ) :
    (w.write id byte).files[other]? =
      if id = other then w.files[other]?.map fun f => { f with bytes := f.bytes ++ [byte] }
      else w.files[other]? := by
  rw [FileWorld.write, List.getElem?_modify]
  split_ifs with he
  · rfl
  · exact Option.map_id_apply

theorem append_step {written : List ℕ} {byte : ℕ} (h : FileShared store n w)
    (hown : (FilePhase.writing plan id written).Own store t call w)
    (hpub : Published store t call w) :
    FileStep store n t call w (w.write id byte) (.writing plan id (written ++ [byte])) := by
  obtain ⟨hfor, hfile, htemp, hfinal⟩ := hown
  have hmine : (w.write id byte).files[id]? = some ⟨t, written ++ [byte]⟩ := by
    rw [file_write, if_pos rfl, hfile]
    rfl
  have hother : ∀ other, other ≠ id → (w.write id byte).files[other]? = w.files[other]? :=
    fun other hne => (file_write ..).trans (if_neg (Ne.symm hne))
  have hkept : ∀ q other, store.Final q → w.names q = some (.file other) →
      (w.write id byte).files[other]? = w.files[other]? := by
    intro q other hq hx
    refine hother other ?_
    rintro rfl
    exact hfinal q hq hx
  have howner : ∀ (other : FileId) (f : FileContent), (w.write id byte).files[other]? = some f →
      ∃ g : FileContent, w.files[other]? = some g ∧ g.owner = f.owner := by
    intro other f hf
    by_cases he : other = id
    · subst he
      cases Option.some.inj (hmine.symm.trans hf)
      exact ⟨_, hfile, rfl⟩
    · rw [hother other he] at hf
      exact ⟨f, hf, rfl⟩
  refine ⟨⟨?_, ?_, h.final⟩, ⟨hfor, hmine, htemp, hfinal⟩, ?_, ⟨?_, ?_, fun _ _ _ _ _ => .rfl,
    fun _ _ _ hx => hx, hkept⟩⟩
  · intro q other hx
    by_cases he : other = id
    · exact ⟨⟨t, written ++ [byte]⟩, by rw [he, hmine]⟩
    · obtain ⟨f, hf⟩ := h.known q other hx
      exact ⟨f, (hother other he).trans hf⟩
  · intro other f hf
    obtain ⟨g, hg, hgo⟩ := howner other f hf
    exact hgo ▸ h.owned other g hg
  · intro q other f hq hx hf hfo
    rw [hkept q other hq hx] at hf
    exact hpub q other f hq hx hf hfo
  · intro other f hf hfo
    rw [hother other ?_]
    · exact hf
    · rintro rfl
      cases Option.some.inj (hfile.symm.trans hf)
      exact hfo rfl
  · exact fun other f hf => .inl (howner other f hf)

theorem link_step (h : FileShared store n w) (hown : (FilePhase.written plan id).Own store t call w)
    (hpub : Published store t call w) (hnone : w.names plan.finalPath = none) :
    FileStep store n t call w (w.setName plan.finalPath (some (.file id)))
      (.published plan id) := by
  obtain ⟨hfor, hfile, htemp⟩ := hown
  have hnode : ∀ other, Node.file id = .file other → w.files[other]? = some ⟨t, plan.bytes⟩ := by
    rintro other he
    cases he
    exact hfile
  refine ⟨shared_setName h (fun other he => ⟨_, hnode other he⟩) fun _ => ⟨id, rfl⟩,
    ⟨hfor, hfile, ?_, ?_⟩, ?_, moves_setName hnone fun other he => ⟨_, hnode other he⟩⟩
  · rw [names_setName, if_neg hfor.ne.symm]
    exact htemp
  · rw [names_setName, if_pos rfl]
  · intro q other f hq hx hf howner
    rw [names_setName] at hx
    split_ifs at hx with he
    · subst he
      cases Option.some.inj hx
      cases Option.some.inj (hfile.symm.trans hf)
      obtain ⟨storageKey, random, hcall, hkey, -⟩ := hfor
      exact ⟨storageKey, random, hcall, hkey⟩
    · exact hpub q other f hq hx hf howner

theorem unlink_step (h : FileShared store n w) (hfor : plan.For store call)
    (hfile : ∃ bytes, w.files[id]? = some ⟨t, bytes⟩)
    (htemp : w.names plan.tempPath = some (.file id)) (hpub : Published store t call w)
    (hown : φ'.Own store t call (w.setName plan.tempPath none)) :
    FileStep store n t call w (w.setName plan.tempPath none) φ' := by
  obtain ⟨bytes, hfile⟩ := hfile
  have hfinal : ∀ q, store.Final q → (w.setName plan.tempPath none).names q = w.names q := by
    refine fun q hq => (names_setName ..).trans (if_neg ?_)
    rintro rfl
    exact hfor.not_final hq
  refine ⟨⟨?_, h.owned, ?_⟩, hown, ?_, ⟨fun _ _ h _ => h, fun _ f h => .inl ⟨f, h, rfl⟩, ?_, ?_,
    fun _ _ _ _ => rfl⟩⟩
  · intro q other hx
    rw [names_setName] at hx
    split_ifs at hx
    exact h.known q other hx
  · intro q x hq hx
    rw [hfinal q hq] at hx
    exact h.final q x hq hx
  · intro q other f hq hx hf howner
    rw [hfinal q hq] at hx
    exact hpub q other f hq hx hf howner
  · intro q other f hf howner
    rw [names_setName]
    split_ifs with he
    · subst he
      constructor
      · exact fun hx => nomatch hx
      · intro hx
        cases Option.some.inj (htemp.symm.trans hx)
        cases Option.some.inj (hfile.symm.trans hf)
        exact absurd rfl howner
    · rfl
  · intro q x hq hx
    rw [hfinal q hq]
    exact hx

end Steps

section Advance

variable {store : SharedFilesystemArtifactStore} {n : ℕ} {t : ThreadId} {call : StoreCall}
  {w : FileWorld} {φ : FilePhase}

/-- An operation that changes nothing, whatever becomes of it. -/
theorem perform_still {op : FileOp} (h : (FileWorld.exec t op w).2 = w) (o : Outcome StoreError) :
    ((sharing store).perform t call op w o).2 = w ∧
      ((∃ e, ((sharing store).perform t call op w o).1 = .error e) ∨
        ((sharing store).perform t call op w o).1 = (FileWorld.exec t op w).1) := by
  cases o with
  | done => exact ⟨h, .inr rfl⟩
  | refused e => exact ⟨rfl, .inl ⟨e, rfl⟩⟩
  | unacknowledged e => exact ⟨h, .inl ⟨e, rfl⟩⟩

theorem own_directorySync (h : φ.Own store t call w) (path : Text)
    (r : fileApi.Answer (.directorySync path)) :
    (φ.next (.directorySync path) r).Own store t call w := by
  cases φ <;> cases r <;> exact h

theorem own_close (h : φ.Own store t call w) (handle : Node) (r : fileApi.Answer (.close handle)) :
    (φ.next (.close handle) r).Own store t call w := by
  cases φ with
  | written plan id =>
    cases r with
    | ok _ => exact h
    | error e => exact ⟨h.1, ⟨_, h.2.1⟩, h.2.2⟩
  | _ => cases r <;> exact h

theorem size_eq {id : FileId} {f : FileContent} (h : w.files[id]? = some f) :
    (w.stats (.file id)).size = f.bytes.length := by
  rw [FileWorld.stats, h]
  rfl

/-- The removal of the temporary file, whether it succeeds or not. -/
theorem unlinked_step {tempPath : Text} {φ' : FilePhase} (h : FileShared store n w)
    (hpub : Published store t call w)
    (hexec : FileWorld.exec t (.unlink tempPath) w = (.ok (), w.setName tempPath none))
    (hstep : FileStep store n t call w (w.setName tempPath none) φ')
    (hown : φ'.Own store t call w) (hnext : ∀ r, φ.next (.unlink tempPath) r = φ')
    (o : Outcome StoreError) :
    FileStep store n t call w ((sharing store).perform t call (.unlink tempPath) w o).2
      (φ.next (.unlink tempPath) ((sharing store).perform t call (.unlink tempPath) w o).1) := by
  have hworld : (FileWorld.exec t (.unlink tempPath) w).2 = w.setName tempPath none := by rw [hexec]
  rw [hnext]
  cases o with
  | done => exact hworld ▸ hstep
  | refused e => exact .same h hown hpub
  | unacknowledged e => exact hworld ▸ hstep

theorem snoc_isPrefix {read bytes : List ℕ} {byte : ℕ} (h : read <+: bytes)
    (hbyte : bytes[read.length]? = some byte) : read ++ [byte] <+: bytes := by
  obtain ⟨rest, rfl⟩ := h
  rw [List.getElem?_append_right le_rfl, Nat.sub_self] at hbyte
  cases rest with
  | nil => cases hbyte
  | cons b rest =>
    cases Option.some.inj hbyte
    exact ⟨rest, by simp⟩

/-- The step lemma: one operation of one call. -/
theorem advance_step {op : FileOp} (h : FileShared store n w) (hn : t < n)
    (hown : φ.Own store t call w) (hpub : Published store t call w) (hp : FilePermit store φ op)
    (o : Outcome StoreError) :
    FileStep store n t call w ((sharing store).perform t call op w o).2
      (φ.next op ((sharing store).perform t call op w o).1) := by
  cases hp with
  | lstat path =>
    have hstill : (FileWorld.exec t (.lstat path) w).2 = w := by
      rw [FileWorld.exec]
      split <;> rfl
    rw [(perform_still hstill o).1, next_lstat]
    exact .same h hown hpub
  | directorySync path =>
    rw [(@perform_still store t call w (.directorySync path) rfl o).1]
    exact .same h (own_directorySync hown path _) hpub
  | close handle =>
    rw [(@perform_still store t call w (.close handle) rfl o).1]
    exact .same h (own_close hown handle _) hpub
  | mkdir hnot =>
    cases o with
    | done => exact mkdir_step h hown hpub hnot
    | refused e => exact .same h hown hpub
    | unacknowledged e => exact mkdir_step h hown hpub hnot
  | @openNew plan =>
    rcases openNew_cases t w plan.tempPath with ⟨code, hexec⟩ | ⟨hnone, hexec⟩
    · have hstill : (FileWorld.exec t (.openNew plan.tempPath) w).2 = w := by rw [hexec]
      obtain ⟨hw, ⟨e, he⟩ | he⟩ := @perform_still store t call w _ hstill o
      · rw [hw, he]
        exact .same h trivial hpub
      · rw [hw, he, hexec]
        exact .same h trivial hpub
    · have hstep := opened_step h hn hown hnone
      cases o with
      | done =>
        change FileStep store n t call w (FileWorld.exec t (.openNew plan.tempPath) w).2
          (FilePhase.next _ _ (FileWorld.exec t (.openNew plan.tempPath) w).1)
        rw [hexec]
        exact hstep
      | refused e => exact .same h trivial hpub
      | unacknowledged e =>
        change FileStep store n t call w (FileWorld.exec t (.openNew plan.tempPath) w).2 .finished
        rw [hexec]
        exact ⟨hstep.shared, trivial, hstep.published, hstep.moves⟩
  | @append plan id written byte hb =>
    have hstep := @append_step store n t call w plan id written byte h hown hpub
    obtain ⟨hfor, hfile, htemp, -⟩ := hown
    cases o with
    | done => exact hstep
    | refused e => exact .same h ⟨hfor, ⟨_, hfile⟩, htemp⟩ hpub
    | unacknowledged e =>
      obtain ⟨-, hfile', htemp', -⟩ := hstep.own
      exact ⟨hstep.shared, ⟨hfor, ⟨_, hfile'⟩, htemp'⟩, hstep.published, hstep.moves⟩
  | @sync plan id =>
    obtain ⟨hfor, hfile, htemp, -⟩ := hown
    obtain ⟨hw, ⟨e, he⟩ | he⟩ := @perform_still store t call w (.sync id) rfl o
    · rw [hw, he]
      exact .same h ⟨hfor, ⟨_, hfile⟩, htemp⟩ hpub
    · rw [hw, he]
      exact .same h ⟨hfor, hfile, htemp⟩ hpub
  | @link plan id =>
    have hfailed : ∀ (w' : FileWorld) e, (FilePhase.leaving plan id).Own store t call w' →
        ((FilePhase.written plan id).next (.link plan.tempPath plan.finalPath) (.error e)).Own store
          t call w' := by
      intro w' e hleaving
      show (ite _ _ _ : FilePhase).Own store t call w'
      split
      · exact hleaving
      · exact hleaving
    have hstay : (FilePhase.leaving plan id).Own store t call w :=
      ⟨hown.1, ⟨_, hown.2.1⟩, hown.2.2⟩
    have hexec : FileWorld.exec t (.link plan.tempPath plan.finalPath) w =
        w.create plan.finalPath (.file id) := by
      rw [FileWorld.exec, hown.2.2]
    rcases create_cases w plan.finalPath (.file id) with ⟨code, hcreate⟩ | ⟨hnone, hcreate⟩
    · rw [hcreate] at hexec
      have hstill : (FileWorld.exec t (.link plan.tempPath plan.finalPath) w).2 = w := by rw [hexec]
      obtain ⟨hw, ⟨e, he⟩ | he⟩ := @perform_still store t call w _ hstill o
      · rw [hw, he]
        exact .same h (hfailed _ _ hstay) hpub
      · rw [hw, he, hexec]
        exact .same h (hfailed _ _ hstay) hpub
    · rw [hcreate] at hexec
      have hstep := link_step h hown hpub hnone
      cases o with
      | done =>
        change FileStep store n t call w (FileWorld.exec t (.link plan.tempPath plan.finalPath) w).2
          (FilePhase.next _ _ (FileWorld.exec t (.link plan.tempPath plan.finalPath) w).1)
        rw [hexec]
        exact hstep
      | refused e => exact .same h (hfailed _ _ hstay) hpub
      | unacknowledged e =>
        change FileStep store n t call w (FileWorld.exec t (.link plan.tempPath plan.finalPath) w).2
          (FilePhase.next _ _ (.error e))
        rw [hexec]
        obtain ⟨hfor, hfile, htemp, -⟩ := hstep.own
        exact ⟨hstep.shared, hfailed _ _ ⟨hfor, ⟨_, hfile⟩, htemp⟩, hstep.published, hstep.moves⟩
  | @settle plan id =>
    obtain ⟨hfor, hfile, htemp, hfinal⟩ := hown
    have hexec : FileWorld.exec t (.unlink plan.tempPath) w =
        (.ok (), w.setName plan.tempPath none) := by
      rw [FileWorld.exec, htemp]
    have hstays : (w.setName plan.tempPath none).names plan.finalPath = some (.file id) := by
      rw [names_setName, if_neg hfor.ne]
      exact hfinal
    have hstep := @unlink_step store n t call w (.settled plan id) plan id h hfor ⟨_, hfile⟩ htemp hpub
      ⟨hfor, hfile, hstays⟩
    exact unlinked_step h hpub hexec hstep ⟨hfor, hfile, hfinal⟩ (fun r => by cases r <;> rfl) o
  | @unlink plan id =>
    obtain ⟨hfor, hfile, htemp⟩ := hown
    have hexec : FileWorld.exec t (.unlink plan.tempPath) w =
        (.ok (), w.setName plan.tempPath none) := by
      rw [FileWorld.exec, htemp]
    have hstep := @unlink_step store n t call w .finished plan id h hfor hfile htemp hpub trivial
    exact unlinked_step h hpub hexec hstep trivial (fun r => by cases r <;> rfl) o
  | @forgo plan id =>
    obtain ⟨hfor, hfile, htemp⟩ := hown
    have hexec : FileWorld.exec t (.unlink plan.tempPath) w =
        (.ok (), w.setName plan.tempPath none) := by
      rw [FileWorld.exec, htemp]
    have hstep := @unlink_step store n t call w .forgone plan id h hfor hfile htemp hpub trivial
    exact unlinked_step h hpub hexec hstep trivial (fun r => by cases r <;> rfl) o
  | @openRead path =>
    cases hname : w.names path with
    | none =>
      have hexec : FileWorld.exec t (.openRead path) w = (errno "ENOENT", w) := by
        rw [FileWorld.exec, hname]
      obtain ⟨hw, ⟨e, he⟩ | he⟩ := @perform_still store t call w (.openRead path) (by rw [hexec]) o
      · rw [hw, he]
        exact .same h hown hpub
      · rw [hw, he, hexec]
        exact .same h hown hpub
    | some node =>
      have hexec : FileWorld.exec t (.openRead path) w = (errno "ELOOP", w) ∨
          FileWorld.exec t (.openRead path) w = (.ok node, w) := by
        rw [FileWorld.exec, hname]
        cases node with
        | symbolicLink => exact .inl rfl
        | directory => exact .inr rfl
        | file id => exact .inr rfl
      have hstill : (FileWorld.exec t (.openRead path) w).2 = w := by
        rcases hexec with hexec | hexec <;> rw [hexec]
      obtain ⟨hw, ⟨e, he⟩ | he⟩ := @perform_still store t call w _ hstill o
      · rw [hw, he]
        exact .same h hown hpub
      · rw [hw, he]
        rcases hexec with hexec | hexec
        · rw [hexec]
          exact .same h hown hpub
        · rw [hexec]
          exact .same h ⟨hown, hname⟩ hpub
  | @stat path handle =>
    obtain ⟨hw, ⟨e, he⟩ | he⟩ := @perform_still store t call w (.stat handle) rfl o
    · rw [hw, he]
      exact .same h (by cases handle <;> exact hown) hpub
    · rw [hw, he]
      cases handle with
      | directory => exact .same h hown hpub
      | symbolicLink => exact .same h hown hpub
      | file id =>
        obtain ⟨f, hf⟩ := h.known path id hown.2
        exact .same h ⟨hown.1, hown.2, f, hf, (size_eq hf).symm, List.nil_prefix⟩ hpub
  | @statAgain path id size =>
    obtain ⟨hw, ⟨e, he⟩ | he⟩ := @perform_still store t call w (.stat (.file id)) rfl o
    · rw [hw, he]
      exact .same h hown hpub
    · rw [hw, he]
      obtain ⟨hpath, hname, f, hf, -, -⟩ := hown
      exact .same h ⟨hpath, hname, f, hf, (size_eq hf).symm, List.nil_prefix⟩ hpub
  | @read path id size read hlt =>
    obtain ⟨hw, ⟨e, he⟩ | he⟩ := @perform_still store t call w (.read id read.length) rfl o
    · rw [hw, he]
      exact .same h (by cases read <;> exact hown) hpub
    · obtain ⟨hpath, hname, f, hf, hsize, hread⟩ := hown
      have hbyte : read.length < f.bytes.length := by omega
      have hexec : (FileWorld.exec t (.read id read.length) w).1 =
          .ok (some f.bytes[read.length]) := by
        show (Except.ok ((w.files[id]?).bind _) : Except StoreError (Option ℕ)) = _
        rw [hf]
        exact congrArg Except.ok (List.getElem?_eq_getElem hbyte)
      rw [hw, he, hexec]
      have hgrown := snoc_isPrefix hread (List.getElem?_eq_getElem hbyte)
      have hown : (FilePhase.reading path id size (read ++ [f.bytes[read.length]])).Own store t
          call w := ⟨hpath, hname, f, hf, hsize, hgrown⟩
      exact .same h (by cases read <;> exact hown) hpub

end Advance

section Runs

variable {store : SharedFilesystemArtifactStore}

theorem own_start {n : ℕ} {w : FileWorld} (h : FileShared store n w) (call : StoreCall) :
    (call.start store).Own store n call w := by
  cases call with
  | put storageKey bytes random =>
    rw [StoreCall.start]
    cases hkey : store.resolveKey storageKey with
    | ok path =>
      exact ⟨⟨storageKey, random, rfl, hkey, rfl⟩, fun id f hf => (h.owned id f hf).ne⟩
    | error e => trivial
  | get storageKey =>
    rw [StoreCall.start]
    cases hkey : store.resolveKey storageKey with
    | ok path => exact ⟨storageKey, hkey⟩
    | error e => trivial

def publicationDiscipline (store : SharedFilesystemArtifactStore) :
    Discipline (publicationConformance store) where
  ok _ _ := True
  shared := FileShared store
  own t call φ w := φ.Own store t call w ∧ Published store t call w
  moves := FileMoves store
  spawn _ call _ h _ :=
    ⟨⟨h.known, fun id f hf => (h.owned id f hf).trans (Nat.lt_succ_self _), h.final⟩,
      ⟨own_start h call, fun _ id f _ _ hf ho => absurd ho (h.owned id f hf).ne⟩, .refl ..⟩
  advance _ _ o _ _ _ _ ht _ _ h hown hp :=
    have hs := advance_step h (List.getElem?_eq_some_iff.mp ht).1 hown.1 hown.2 hp o
    ⟨hs.shared, ⟨hs.own, hs.published⟩, hs.moves⟩
  crash _ _ _ _ _ _ _ _ h hown := ⟨h, hown, .refl ..⟩
  act _ a := a.elim
  stable _ _ _ _ _ _ _ _ _ hm hu _ hown := ⟨hown.1.kept hm hu, hown.2.kept hm hu⟩

/-- A file system without any blob, or any other file. -/
structure FileWorld.Fresh (store : SharedFilesystemArtifactStore) (w : FileWorld) : Prop where
  files : w.files = []
  names : ∀ path id, w.names path ≠ some (.file id)
  final : ∀ path, store.Final path → w.names path = none

abbrev Sharing : Type := Config fileApi FileWorld StoreCall (Option (List ℕ))

/-- There is a `put` of these bytes under the key. -/
def PutOf (c : Sharing) (storageKey : Text) (bytes : List ℕ) : Prop :=
  ∃ (t : ThreadId) (th : Thread fileApi StoreCall (Option (List ℕ))) (random : Text),
    c.threads[t]? = some th ∧ th.entry = .put storageKey bytes random

/-- The directory syncs of the thread succeed. -/
def SyncSucceeds (t : ThreadId) (c : Sharing) (l : Label fileApi StoreCall Empty) : Prop :=
  ∀ o path, l = .advance t o → c.pending t = some (.directorySync path) → o = .done

variable {w : FileWorld} {c : Sharing} {ls : List (Label fileApi StoreCall Empty)}
  {storageKey path : Text}

theorem publication_holds (hw : w.Fresh store)
    (hc : (sharing store).play (.initial w) ls = some c) :
    (publicationDiscipline store).Holds c := by
  have hshared : FileShared store 0 w := by
    refine ⟨fun path id h => absurd h (hw.names path id), fun id f hf => ?_, fun path x hp hx => ?_⟩
    · rw [hw.files] at hf
      cases hf
    · rw [hw.final path hp] at hx
      cases hx
  exact Discipline.holds_play (Discipline.holds_initial hshared)
    (Machine.along_true _ _) hc

/-- The bytes under a final path are those of one `put`. -/
theorem put_of_final (hc : (publicationDiscipline store).Holds c)
    (hkey : store.resolveKey storageKey = .ok path) {id : FileId}
    (hname : c.state.names path = some (.file id)) :
    ∃ bytes, c.state.bytesAt path = some bytes ∧ PutOf c storageKey bytes := by
  obtain ⟨f, hf⟩ := hc.1.known path id hname
  have howner := hc.1.owned id f hf
  have ht := List.getElem?_eq_getElem howner
  obtain ⟨φ, hfollows⟩ := hc.2 f.owner _ ht
  obtain ⟨key, random, hcall, hkey'⟩ := hfollows.own.2 path id f ⟨_, hkey⟩ hname hf rfl
  cases resolveKey_injective hkey hkey'
  refine ⟨f.bytes, ?_, f.owner, _, random, ht, hcall⟩
  rw [FileWorld.bytesAt, hname]
  exact congrArg (Option.map (·.bytes)) hf

theorem final_cases (hc : (publicationDiscipline store).Holds c)
    (hkey : store.resolveKey storageKey = .ok path) :
    c.state.names path = none ∨
      ∃ bytes, c.state.bytesAt path = some bytes ∧ PutOf c storageKey bytes := by
  cases hname : c.state.names path with
  | none => exact .inl rfl
  | some node =>
    obtain ⟨id, rfl⟩ := hc.1.final path node ⟨_, hkey⟩ hname
    exact .inr (put_of_final hc hkey hname)

/-- The blob under a path stays. -/
def FileWorld.Keeps (path : Text) (w w' : FileWorld) : Prop :=
  ∀ bytes, w.bytesAt path = some bytes → w'.bytesAt path = some bytes

/-- What is published stays as it is. -/
theorem bytesAt_play (hc : (publicationDiscipline store).Holds c) {ls'} {c' : Sharing}
    (hplay : (sharing store).play c ls' = some c') (hpath : store.Final path) {bytes : List ℕ}
    (hbytes : c.state.bytesAt path = some bytes) : c'.state.bytesAt path = some bytes := by
  have hmoves : ∀ m (w w' : FileWorld), FileMoves store m w w' → w.Keeps path w' := by
    intro m w w' hm b hb
    unfold FileWorld.bytesAt at hb ⊢
    split at hb
    · rename_i id hname
      rw [hm.published path _ hpath hname]
      exact (congrArg (Option.map (·.bytes)) (hm.kept path id hpath hname)).trans hb
    · cases hb
  have hkeeps : c.state.Keeps path c'.state :=
    Discipline.play_moves (fun _ _ h => h) (fun _ _ _ h h' b hb => h' b (h b hb)) hmoves hc
      (Machine.along_true _ _) hplay
  exact hkeeps bytes hbytes

/-- A `put` that returns has published its bytes. -/
theorem bytesAt_of_put (hc : (publicationDiscipline store).Holds c)
    (hkey : store.resolveKey storageKey = .ok path) {t : ThreadId} {bytes : List ℕ} {random : Text}
    (ht : c.threads[t]? = some ⟨.put storageKey bytes random, .pure none, false⟩) :
    c.state.bytesAt path = some bytes := by
  obtain ⟨φ, ⟨hown, -⟩, plan, id, rfl⟩ := hc.returned ht
  obtain ⟨⟨key, random', hcall, hkey', -⟩, hfile, hname⟩ := hown
  injection hcall with hkeys hbytes
  subst hkeys
  cases Except.ok.inj (hkey.symm.trans hkey')
  rw [FileWorld.bytesAt, hname, hbytes]
  exact congrArg (Option.map (·.bytes)) hfile

/-- What a `get` returns is the blob. -/
theorem bytesAt_of_get (hc : (publicationDiscipline store).Holds c)
    (hkey : store.resolveKey storageKey = .ok path) {t : ThreadId} {bytes : List ℕ}
    (ht : c.threads[t]? = some ⟨.get storageKey, .pure (some bytes), false⟩) :
    c.state.bytesAt path = some bytes ∧ PutOf c storageKey bytes := by
  obtain ⟨φ, ⟨hown, -⟩, path', bytes', hkey', hbytes, hreturns⟩ := hc.returned ht
  cases Except.ok.inj (hkey.symm.trans hkey')
  cases Option.some.inj hbytes
  rcases hreturns with ⟨id, rfl⟩ | rfl
  · obtain ⟨-, hname, f, hfile, hlength, hread⟩ := hown
    have hwhole : bytes = f.bytes := hread.eq_of_length hlength.symm
    have hat : c.state.bytesAt path = some bytes := by
      rw [FileWorld.bytesAt, hname, hwhole]
      exact congrArg (Option.map (·.bytes)) hfile
    obtain ⟨bytes', hbytes', hput⟩ := put_of_final hc hkey hname
    cases Option.some.inj (hat.symm.trans hbytes')
    exact ⟨hat, hput⟩
  · exact hown.elim

end Runs

section Lost

variable {store : SharedFilesystemArtifactStore} {c c' : Sharing}
  {ls : List (Label fileApi StoreCall Empty)} {t : ThreadId}

/-- The phases of a `put` that has found a blob. -/
inductive FilePhase.Found : FilePhase → Prop where
  | lost (plan : Publication) (id : FileId) : Found (.lost plan id)
  | forgone : Found .forgone

/-- As long as its directory syncs succeed, a `put` that has found a blob does not forget it. -/
theorem found_stays {φ : FilePhase} {op : FileOp} {call : StoreCall} {o : Outcome StoreError}
    (hφ : φ.Found) (hp : FilePermit store φ op)
    (hsync : ∀ path, op = .directorySync path → o = .done) :
    (φ.next op ((sharing store).perform t call op c.state o).1).Found := by
  cases hp with
  | lstat path =>
    rw [next_lstat]
    exact hφ
  | directorySync path =>
    cases hsync path rfl
    cases hφ with
    | lost plan id => exact .lost plan id
    | forgone => exact .forgone
  | close handle =>
    cases hφ with
    | lost plan id => exact .lost plan id
    | forgone => exact .forgone
  | forgo => exact .forgone
  | _ => cases hφ

/-- A `put` that has found a blob can only end with that error. -/
theorem found_ends {call : StoreCall} {storageKey : Text} {bytes : List ℕ} {random : Text}
    (hcall : call = .put storageKey bytes random) {p : FilePromise (Option (List ℕ))} {ψ : FilePhase}
    (hfound : ψ.Found) (h : (publicationProtocol store).Tracks p ψ (call.Returns store) call.Throws)
    (hended : p.pending = none) : p = .throw alreadyExists := by
  subst hcall
  cases p with
  | pure r =>
    obtain ⟨plan, id, rfl⟩ : ∃ plan id, ψ = .settled plan id := h
    cases hfound
  | throw e =>
    rcases (h : StoreCall.Throws (.put storageKey bytes random) e ψ) with
      ⟨plan, rfl⟩ | rfl | ⟨plan, id, rfl⟩ | ⟨-, rfl⟩
    · cases hfound
    · cases hfound
    · cases hfound
    · rfl
  | await op next => cases hended

/-- A `put` whose `link` finds a blob fails with `EEXIST` as its cause. -/
theorem lost_throws (hc : (publicationDiscipline store).Holds c) {tempPath path : Text}
    (hpending : c.pending t = some (.link tempPath path)) (hname : c.state.names path ≠ none)
    {c₁ : Sharing} (hstep : (sharing store).step c (.advance t .done) = some c₁) :
    c₁.state = c.state ∧ ∀ ls c', (sharing store).Along (SyncSucceeds t) c₁ ls →
      (sharing store).play c₁ ls = some c' → ∀ th, c'.threads[t]? = some th →
        th.prog.pending = none → th.prog = .throw alreadyExists := by
  obtain ⟨call, op, next, ht, -, rfl⟩ := Machine.step_advance hstep
  have hop : op = .link tempPath path := by
    rw [Config.pending, ht] at hpending
    exact Option.some.inj hpending
  subst hop
  obtain ⟨φ, ⟨hown, -⟩, hpermit, htracks⟩ := Discipline.Holds.advancing hc ht
  cases hpermit with
  | @link plan id =>
    have hexec : FileWorld.exec t (.link plan.tempPath plan.finalPath) c.state =
        (errno "EEXIST", c.state) := by
      rw [FileWorld.exec, hown.2.2]
      exact create_exists hname
    have hperform : (sharing store).perform t call (.link plan.tempPath plan.finalPath) c.state
        .done = (errno "EEXIST", c.state) := hexec
    have hnext := htracks (errno "EEXIST") trivial
    rw [hperform]
    change (publicationProtocol store).Tracks _ (.lost plan id) _ _ at hnext
    refine ⟨rfl, fun ls c' hsyncs hplay th hth hended => ?_⟩
    obtain ⟨storageKey, random, hcall, -⟩ := hown.1
    have hlt := (List.getElem?_eq_some_iff.mp ht).1
    obtain ⟨th', ψ, hth', hfound, htrack⟩ := Discipline.tracks_along (publicationConformance store)
      (fun d o e op next φ hd hok hp hφ => found_stays hφ hp fun path hop => hok o path rfl (by
        rw [Config.pending, hd]
        exact congrArg some hop))
      hsyncs hplay (List.getElem?_set_self hlt) (.lost plan id) hnext
    cases Option.some.inj (hth'.symm.trans hth)
    exact found_ends hcall hfound htrack hended

end Lost

/-- Whatever calls run and crash at the same time, a blob is published whole, once and for all: a
`put` that comes late fails with `EEXIST` and changes nothing, and a `get` reads all of it. -/
theorem put_atomic {store : SharedFilesystemArtifactStore} {w : FileWorld} (hw : w.Fresh store)
    {c : Sharing} {ls : List (Label fileApi StoreCall Empty)}
    (hc : (sharing store).play (.initial w) ls = some c) {storageKey path : Text}
    (hkey : store.resolveKey storageKey = .ok path) :
    (c.state.names path = none ∨
      ∃ bytes, c.state.bytesAt path = some bytes ∧ PutOf c storageKey bytes) ∧
    (∀ bytes ls' c', c.state.bytesAt path = some bytes →
      (sharing store).play c ls' = some c' → c'.state.bytesAt path = some bytes) ∧
    (∀ t tempPath c₁, c.pending t = some (.link tempPath path) → c.state.names path ≠ none →
      (sharing store).step c (.advance t .done) = some c₁ → c₁.state = c.state ∧
        ∀ ls' c', (sharing store).Along (SyncSucceeds t) c₁ ls' →
          (sharing store).play c₁ ls' = some c' → ∀ th, c'.threads[t]? = some th →
            th.prog.pending = none → th.prog = .throw alreadyExists) ∧
    (∀ (t : ThreadId) (bytes : List ℕ) (random : Text),
      c.threads[t]? = some ⟨.put storageKey bytes random, .pure none, false⟩ →
        c.state.bytesAt path = some bytes) ∧
    (∀ (t : ThreadId) (bytes : List ℕ),
      c.threads[t]? = some ⟨.get storageKey, .pure (some bytes), false⟩ →
        c.state.bytesAt path = some bytes ∧ PutOf c storageKey bytes) := by
  have hholds := publication_holds hw hc
  refine ⟨final_cases hholds hkey, fun bytes ls' c' hbytes hplay => ?_, ?_, ?_, ?_⟩
  · exact bytesAt_play hholds hplay ⟨_, hkey⟩ hbytes
  · exact fun t tempPath c₁ hpending hname hstep => lost_throws hholds hpending hname hstep
  · exact fun t bytes random ht => bytesAt_of_put hholds hkey ht
  · exact fun t bytes ht => bytesAt_of_get hholds hkey ht

section Sample

def sampleStore : SharedFilesystemArtifactStore := .new (text "/") (text "/artifacts")

def sampleKey : Text := text "v1/ab/cd/00112233445566778899aabbccddeeff.json.gz"

def sampleWorld : FileWorld :=
  ⟨fun path => if path = text "/artifacts" then some .directory else none, []⟩

def samplePut : List (Label fileApi StoreCall Empty) :=
  .spawn (.put sampleKey [31, 139] (text "beef")) :: List.replicate 18 (.advance 0 .done)

theorem sampleWorld_fresh : sampleWorld.Fresh sampleStore := by
  refine ⟨rfl, fun path id h => ?_, fun path hpath => if_neg ?_⟩
  · rw [sampleWorld] at h
    dsimp only at h
    split_ifs at h
    cases h
  · rintro rfl
    exact absurd (getLast_final hpath) (by decide)

theorem samplePut_runs : ∃ c, (sharing sampleStore).play (.initial sampleWorld) samplePut = some c ∧
    c.threads[0]? = some ⟨.put sampleKey [31, 139] (text "beef"), .pure none, false⟩ :=
  ⟨_, rfl, rfl⟩

theorem put_atomic_sample : ∃ c, (sharing sampleStore).play (.initial sampleWorld) samplePut = some c ∧
    c.state.bytesAt (text "/artifacts" ++ '/' :: sampleKey) = some [31, 139] := by
  have hkey : sampleStore.resolveKey sampleKey = .ok (text "/artifacts" ++ '/' :: sampleKey) := by
    decide +kernel
  obtain ⟨c, hc, ht⟩ := samplePut_runs
  exact ⟨c, hc, (put_atomic sampleWorld_fresh hc hkey).2.2.2.1 0 _ _ ht⟩

end Sample

end AppBuilder.Artifacts.SharedFilesystem
