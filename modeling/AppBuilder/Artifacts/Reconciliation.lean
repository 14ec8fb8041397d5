import AppBuilder.Artifacts.Rewriting

/-! A pass of the reconciler, alone and with the store available. -/
namespace AppBuilder.Artifacts
open Agent Async Encoding

section Codes

variable {α β : Type}

/-- No error says that the store is unavailable. -/
def FromContent (result : Except ArtifactError α) : Prop :=
  ∀ error, result = .error error → error.code ≠ .storeUnavailable

theorem fromContent_ok (a : α) : FromContent (.ok a : Except ArtifactError α) := nofun

theorem fromContent_fail {code : ArtifactErrorCode} (h : code ≠ .storeUnavailable)
    (message : String) : FromContent (fail code message : Except ArtifactError α) := by
  intro error he
  cases he
  exact h

theorem FromContent.bind {result : Except ArtifactError α} {f : α → Except ArtifactError β}
    (h : FromContent result) (hf : ∀ a, FromContent (f a)) : FromContent (result >>= f) := by
  cases result with
  | error error =>
    intro error' he
    cases he
    exact h error rfl
  | ok a => exact hf a

theorem FromContent.map {result : Except ArtifactError α} (h : FromContent result) (f : α → β) :
    FromContent (result.map f) := by
  cases result with
  | error error =>
    intro error' he
    cases he
    exact h error rfl
  | ok a => exact nofun

theorem fromContent_validateLimits (limits : ArtifactLimits) :
    FromContent (validateLimits limits) := by
  have hone : ∀ value name, FromContent (validateLimit value name) := by
    intro value name
    unfold validateLimit
    split_ifs
    · exact fromContent_fail (by decide) _
    · exact fromContent_ok ()
  exact (hone _ _).bind fun _ => (hone _ _).bind fun _ => hone _ _

variable {N : Type}

theorem fromContent_enforceFileCount (input : Json N) (limits : ArtifactLimits)
    (message : String) : FromContent (enforceFileCount input limits message) := by
  unfold enforceFileCount
  split_ifs
  · exact fromContent_fail (by decide) _
  · exact fromContent_ok ()

variable [DecidableEq N] {platform : Platform N}

theorem fromContent_decodePreview (bytes : List ℕ) (manifest : ArtifactIntegrity)
    (limits : ArtifactLimits) :
    FromContent (decodePreviewArtifact platform bytes manifest limits) := by
  refine (fromContent_validateLimits limits).bind fun _ => ?_
  split_ifs
  · exact fromContent_fail (by decide) _
  · exact fromContent_fail (by decide) _
  split
  · exact fromContent_fail (by decide) _
  split_ifs
  · exact fromContent_fail (by decide) _
  split
  · exact fromContent_fail (by decide) _
  refine FromContent.bind (fromContent_enforceFileCount _ _ _) fun _ => ?_
  split
  · exact fromContent_fail (by decide) _
  split_ifs
  · exact fromContent_fail (by decide) _
  · exact fromContent_ok _

theorem fromContent_decodeProject (bytes : List ℕ) (manifest : ArtifactIntegrity)
    (limits : ArtifactLimits) :
    FromContent (decodeProjectArtifact platform bytes manifest limits) := by
  have hmanifest : FromContent (validateManifest bytes manifest limits) := by
    unfold validateManifest
    split_ifs
    · exact fromContent_fail (by decide) _
    · exact fromContent_fail (by decide) _
    · exact fromContent_fail (by decide) _
    · exact fromContent_ok ()
  refine (fromContent_validateLimits limits).bind fun _ => hmanifest.bind fun _ => ?_
  split
  · exact fromContent_fail (by decide) _
  · exact fromContent_fail (by decide) _
  split_ifs
  · exact fromContent_fail (by decide) _
  · exact fromContent_fail (by decide) _
  split
  · exact fromContent_fail (by decide) _
  split
  · exact fromContent_fail (by decide) _
  refine FromContent.bind (fromContent_enforceFileCount _ _ _) fun _ => ?_
  split
  · exact fromContent_fail (by decide) _
  split_ifs
  · exact fromContent_fail (by decide) _
  · exact fromContent_ok _

theorem fromContent_decodeByKind (limits : ArtifactLimits) (kind : ArtifactKind) (bytes : List ℕ)
    (manifest : ArtifactIntegrity) :
    FromContent (decodeByKind platform limits kind bytes manifest) := by
  unfold decodeByKind
  split_ifs
  · exact FromContent.map (fromContent_decodePreview _ _ _) _
  · exact FromContent.map (fromContent_decodeProject _ _ _) _

end Codes

section Steps

variable {N : Type} [DecidableEq N] (platform : Platform N) (config : ArtifactConfig)

/-- The blob of a manifest is complete and valid. -/
def Verifies (w : ArtifactWorld) (manifest : ArtifactManifest) : Prop :=
  ∃ bytes, w.blobs manifest.storageKey = some bytes ∧
    bytes.length = manifest.integrity.compressedBytes ∧
    ∃ bundle, decodeByKind platform config.limits manifest.kind bytes manifest.integrity =
      .ok bundle

/-- What becomes of a manifest whose writer did not finish. -/
def verdict (w : ArtifactWorld) (manifest : ArtifactManifest) : ManifestChange :=
  match w.fetch manifest.storageKey with
  | .error error => .corrupt (corruptionCode error)
  | .ok bytes =>
    if bytes.length ≠ manifest.integrity.compressedBytes then .corrupt .corrupt
    else match decodeByKind platform config.limits manifest.kind bytes manifest.integrity with
      | .ok _ => .ready
      | .error error => .corrupt error.code

theorem verdict_cases (w : ArtifactWorld) (manifest : ArtifactManifest) :
    (verdict platform config w manifest = .ready ∧ Verifies platform config w manifest) ∨
      ∃ code, verdict platform config w manifest = .corrupt code ∧
        ¬ Verifies platform config w manifest := by
  unfold verdict Verifies ArtifactWorld.fetch
  cases hblob : w.blobs manifest.storageKey with
  | none =>
    refine .inr ⟨_, rfl, ?_⟩
    rintro ⟨bytes, hb, -⟩
    cases hb
  | some bytes =>
    dsimp only
    split_ifs with hlength
    · refine .inr ⟨_, rfl, ?_⟩
      rintro ⟨bytes', hb, hl, -⟩
      cases hb
      exact hlength hl
    · cases hdecode : decodeByKind platform config.limits manifest.kind bytes
        manifest.integrity with
      | ok bundle => exact .inl ⟨rfl, bytes, rfl, not_not.mp hlength, bundle, hdecode⟩
      | error error =>
        refine .inr ⟨_, rfl, ?_⟩
        rintro ⟨bytes', hb, -, bundle, hd⟩
        cases hb
        rw [hdecode] at hd
        cases hd

variable {platform config} {uuids : Uuids} {w : ArtifactWorld} {manifest : ArtifactManifest}

theorem evaluate_updateOne (artifactId : Text) (state : ArtifactManifestState)
    (change : ManifestChange) :
    (performOp (.updateOne artifactId state change)).evaluate (ArtifactWorld.exec uuids) w =
      (.ok (w.isIn artifactId state), w.updateOne artifactId state change) :=
  evaluate_performOp rfl

/-- `reconcileWriting` decides by the blob. -/
theorem evaluate_reconcileWritten (hw : w.WellFormed) (hm : manifest ∈ w.manifests)
    (hwriting : manifest.state = .writing) :
    (reconcileWritten platform config manifest).evaluate (ArtifactWorld.exec uuids) w =
      (.ok (), w.rewrite (only manifest.artifactId fun m =>
        some ((verdict platform config w manifest).apply w.clock m))) := by
  have hmark : ∀ error, (markCorrupt manifest.artifactId error).evaluate
      (ArtifactWorld.exec uuids) w = (.ok (), w.rewrite (only manifest.artifactId fun m =>
        some ((ManifestChange.corrupt (corruptionCode error)).apply w.clock m))) := by
    intro error
    rw [← ArtifactWorld.updateOne_eq_rewrite hw hm, hwriting]
    exact Prog.evaluate_bind_ok (evaluate_updateOne ..) _
  have hstat := (@evaluate_performOp uuids (.stat manifest.storageKey) w) rfl
  have hverify := (@evaluate_verifyStoredByKind _ _ platform config uuids) manifest w
  have hfinish : ∀ change, verdict platform config w manifest = change →
      (reconcileWritten platform config manifest).evaluate (ArtifactWorld.exec uuids) w =
        (.ok (), w.rewrite (only manifest.artifactId fun m => some (change.apply w.clock m))) →
      (reconcileWritten platform config manifest).evaluate (ArtifactWorld.exec uuids) w =
        (.ok (), w.rewrite (only manifest.artifactId fun m =>
          some ((verdict platform config w manifest).apply w.clock m))) := by
    rintro change rfl h
    exact h
  unfold stored ArtifactWorld.fetchWith at hverify
  cases hfetch : w.fetch manifest.storageKey with
  | error error =>
    rw [hfetch] at hstat
    have hmissing : error = doesNotExist := by
      unfold ArtifactWorld.fetch at hfetch
      split at hfetch
      · cases hfetch
      · cases hfetch
        rfl
    subst hmissing
    refine hfinish (.corrupt (corruptionCode doesNotExist)) (by rw [verdict, hfetch]) ?_
    exact (Prog.evaluate_tryCatch_error (Prog.evaluate_bind_error hstat _) _).trans (hmark _)
  | ok bytes =>
    rw [hfetch] at hstat hverify
    dsimp only at hverify
    by_cases hlength : bytes.length ≠ manifest.integrity.compressedBytes
    · refine hfinish (.corrupt .corrupt) (by rw [verdict, hfetch]; exact if_pos hlength) ?_
      refine Prog.evaluate_tryCatch_ok ((Prog.evaluate_bind_ok hstat _).trans ?_) _
      dsimp only
      rw [if_pos hlength]
      exact hmark _
    have hsize : ∀ {α : Type} (p q : ArtifactPromise α),
        (if bytes.length ≠ manifest.integrity.compressedBytes then p else q) = q :=
      fun p q => if_neg hlength
    cases hdecode : decodeByKind platform config.limits manifest.kind bytes
        manifest.integrity with
    | ok bundle =>
      rw [hdecode] at hverify
      refine hfinish .ready (by rw [verdict, hfetch]; dsimp only; rw [if_neg hlength, hdecode]) ?_
      refine Prog.evaluate_tryCatch_ok ((Prog.evaluate_bind_ok hstat _).trans ?_) _
      dsimp only
      rw [hsize, ← ArtifactWorld.updateOne_eq_rewrite hw hm, hwriting]
      exact (Prog.evaluate_bind_ok hverify _).trans (Prog.evaluate_bind_ok (evaluate_updateOne ..) _)
    | error error =>
      rw [hdecode] at hverify
      have hcontent : isStoreUnavailable (ofCodec error) = false :=
        beq_eq_false_iff_ne.mpr (fromContent_decodeByKind _ _ _ _ error hdecode)
      refine hfinish (.corrupt error.code)
        (by rw [verdict, hfetch]; dsimp only; rw [if_neg hlength, hdecode]) ?_
      refine (Prog.evaluate_tryCatch_error ((Prog.evaluate_bind_ok hstat _).trans
        ((congrArg (Prog.evaluate _ · w) (hsize _ _)).trans
          (Prog.evaluate_bind_error hverify _))) _).trans ?_
      rw [hcontent]
      exact hmark (ofCodec error)

theorem evaluate_hasReference (artifactId : Text) :
    (hasReference artifactId).evaluate (ArtifactWorld.exec uuids) w =
      (.ok (w.Referenced artifactId), w) := by
  have hsnapshot := (@evaluate_performOp uuids (.snapshotExists artifactId) w) rfl
  have hcandidate := (@evaluate_performOp uuids (.candidateExists artifactId) w) rfl
  have hlease := (@evaluate_performOp uuids (.leaseExists artifactId) w) rfl
  exact (Prog.evaluate_bind_ok hsnapshot _).trans
    ((Prog.evaluate_bind_ok hcandidate _).trans (Prog.evaluate_bind_ok hlease _))

/-- What becomes of a manifest that is to be deleted. -/
def released (w : ArtifactWorld) (m : ArtifactManifest) : Option ArtifactManifest :=
  if w.Referenced m.artifactId then some ((ManifestChange.moveTo .ready).apply w.clock m) else none

/-- What becomes of a ready manifest that is past its retention. -/
def retired (w : ArtifactWorld) (m : ArtifactManifest) : Option ArtifactManifest :=
  if w.Referenced m.artifactId then some m else none

theorem keeps_released (w : ArtifactWorld) : Keeps (released w) := by
  intro m m' h
  unfold released at h
  split_ifs at h
  cases h
  rfl

theorem keeps_retired (w : ArtifactWorld) : Keeps (retired w) := by
  intro m m' h
  unfold retired at h
  split_ifs at h
  cases h
  rfl

/-- `manifest` may have been read before it was claimed. -/
theorem evaluate_deletePendingManifest {current : ArtifactManifest} (hw : w.WellFormed)
    (hm : current ∈ w.manifests) (hpending : current.state = .deletePending)
    (hid : manifest.artifactId = current.artifactId)
    (hkey : manifest.storageKey = current.storageKey) :
    (deletePendingManifest manifest).evaluate (ArtifactWorld.exec uuids) w =
      (.ok (), w.rewrite (only manifest.artifactId (released w))) := by
  have hreference := (@evaluate_hasReference uuids w) manifest.artifactId
  refine (Prog.evaluate_bind_ok hreference _).trans ?_
  dsimp only
  have honly : ∀ f, (∀ m, m.artifactId = manifest.artifactId → f m = released w m) →
      w.rewrite (only manifest.artifactId f) =
        w.rewrite (only manifest.artifactId (released w)) := by
    intro f hf
    refine ArtifactWorld.rewrite_congr fun m _ => ?_
    unfold only
    split_ifs with h
    · exact hf m h
    · rfl
  by_cases href : w.Referenced manifest.artifactId = true
  · rw [if_pos href, ← honly fun m => some ((ManifestChange.moveTo .ready).apply w.clock m)]
    · rw [hid, ← ArtifactWorld.updateOne_eq_rewrite hw hm, hpending]
      exact Prog.evaluate_bind_ok (evaluate_updateOne ..) _
    · intro m h
      rw [released, h, if_pos href]
  · rw [if_neg href, ← honly fun _ => none]
    · rw [hid, hkey, ← ArtifactWorld.deleteOne_eq_rewrite hw hm, hpending]
      have hdelete := (@evaluate_performOp uuids (.delete current.storageKey) w) rfl
      refine (Prog.evaluate_bind_ok (Prog.evaluate_tryCatch_ok
        (Prog.evaluate_bind_ok hdelete _) _) _).trans ?_
      exact Prog.evaluate_bind_ok (@evaluate_performOp uuids
        (.deleteOne current.artifactId .deletePending) _ _ _ rfl) _
    · intro m h
      rw [released, h, if_neg href]

theorem evaluate_reconcileOrphan (hw : w.WellFormed) (hm : manifest ∈ w.manifests)
    (hready : manifest.state = .ready) :
    (reconcileOrphan manifest).evaluate (ArtifactWorld.exec uuids) w =
      (.ok (), w.rewrite (only manifest.artifactId (retired w))) := by
  have hreference := (@evaluate_hasReference uuids w) manifest.artifactId
  refine (Prog.evaluate_bind_ok hreference _).trans ?_
  dsimp only
  by_cases href : w.Referenced manifest.artifactId = true
  · have hsame : ∀ m ∈ w.manifests, only manifest.artifactId (retired w) m = some m := by
      intro m _
      unfold only retired
      split_ifs with h h'
      · rfl
      · rw [h] at h'
        exact absurd href h'
      · rfl
    rw [if_pos href, ArtifactWorld.rewrite_congr hsame, ArtifactWorld.rewrite_some]
    rfl
  · have hclaim := (@evaluate_updateOne uuids w) manifest.artifactId .ready
      (.moveTo .deletePending)
    have hfound : w.isIn manifest.artifactId .ready = true := by
      refine List.any_eq_true.mpr ⟨manifest, hm, ?_⟩
      rw [hready, BEq.rfl, BEq.rfl]
      rfl
    have hupdate := ArtifactWorld.updateOne_eq_rewrite hw hm (.moveTo .deletePending)
    rw [hready] at hupdate
    rw [hfound, hupdate] at hclaim
    have hkeeps : Keeps (only manifest.artifactId fun m =>
        some ((ManifestChange.moveTo .deletePending).apply w.clock m)) :=
      (Keeps.apply _ _).only _
    have hclaimed : (ManifestChange.moveTo .deletePending).apply w.clock manifest ∈
        (w.rewrite (only manifest.artifactId fun m =>
          some ((ManifestChange.moveTo .deletePending).apply w.clock m))).manifests :=
      ArtifactWorld.mem_rewrite.mpr ⟨manifest, hm, if_pos rfl⟩
    have hdelete : (deletePendingManifest manifest).evaluate (ArtifactWorld.exec uuids) _ =
        (.ok (), ArtifactWorld.rewrite _ (only manifest.artifactId (released _))) :=
      evaluate_deletePendingManifest (hw.rewrite hkeeps) hclaimed rfl rfl rfl
    rw [if_neg href]
    refine ((Prog.evaluate_bind_ok hclaim _).trans hdelete).trans ?_
    rw [ArtifactWorld.rewrite_rewrite hkeeps]
    refine congrArg (Prod.mk _) (ArtifactWorld.rewrite_congr fun m _ => ?_)
    by_cases hid : m.artifactId = manifest.artifactId
    · have hgone : ¬ w.Referenced m.artifactId = true := hid ▸ href
      simp only [only, if_pos hid, Option.bind_some]
      exact (if_pos hid).trans ((if_neg hgone).trans (if_neg hgone).symm)
    · simp only [only, if_neg hid, Option.bind_some]

end Steps

section Sweeps

variable {uuids : Uuids} {w : ArtifactWorld} {f : ArtifactManifest → Option ArtifactManifest}

/-- The loop of a part of the pass: its steps rewrite one manifest each, and `J` tells what they may
rely on. -/
theorem evaluate_sweep {step : ArtifactManifest → ArtifactPromise Unit} {J : ArtifactWorld → Prop}
    {p : ArtifactManifest → Prop} (hf : Keeps f) (hJ : ∀ w artifactId, J w → J (w.rewrite (only artifactId f)))
    (hstep : ∀ w m, w.WellFormed → J w → m ∈ w.manifests → p m →
      (step m).evaluate (ArtifactWorld.exec uuids) w = (.ok (), w.rewrite (only m.artifactId f)))
    {ms : List ArtifactManifest} (hw : w.WellFormed) (hj : J w)
    (hms : ∀ m ∈ ms, m ∈ w.manifests ∧ p m) (hnodup : (ms.map (·.artifactId)).Nodup) :
    (Prog.foldEach (fun _ m => step m) () ms).evaluate (ArtifactWorld.exec uuids) w =
      (.ok (), w.rewrite (among (ms.map (·.artifactId)) f)) := by
  induction ms generalizing w with
  | nil =>
    have hsame : ∀ m ∈ w.manifests, among [] f m = some m := fun m _ => if_neg List.not_mem_nil
    rw [List.map_nil, ArtifactWorld.rewrite_congr hsame, ArtifactWorld.rewrite_some]
    rfl
  | cons m ms ih =>
    rw [List.map_cons, List.nodup_cons] at hnodup
    obtain ⟨hm, hrest⟩ := List.forall_mem_cons.mp hms
    have hmem : ∀ m' ∈ ms, m' ∈ (w.rewrite (only m.artifactId f)).manifests ∧ p m' := by
      intro m' hm'
      refine ⟨ArtifactWorld.mem_rewrite.mpr ⟨m', (hrest m' hm').1, if_neg fun he => hnodup.1 ?_⟩,
        (hrest m' hm').2⟩
      exact List.mem_map.mpr ⟨m', hm', he⟩
    have hhead := hstep w m hw hj hm.1 hm.2
    have htail := ih (hw.rewrite (hf.only _)) (hJ w m.artifactId hj) hmem hnodup.2
    refine ((Prog.evaluate_bind_ok hhead _).trans htail).trans ?_
    rw [ArtifactWorld.rewrite_rewrite (hf.only _)]
    refine congrArg (Prod.mk _) (ArtifactWorld.rewrite_congr fun m' _ => ?_)
    unfold only among
    by_cases hid : m'.artifactId = m.artifactId
    · have hin : m'.artifactId ∈ m.artifactId :: ms.map (·.artifactId) := hid ▸ List.mem_cons_self
      rw [if_pos hid, List.map_cons, if_pos hin]
      cases hfm : f m' with
      | none => rfl
      | some changed =>
        rw [Option.bind_some, hf.artifactId hfm, hid, if_neg hnodup.1]
    · rw [if_neg hid, Option.bind_some, List.map_cons]
      simp only [List.mem_cons, hid, false_or]

/-- A scan finds manifests in its state, each of them once. -/
theorem mem_scan {state : ArtifactManifestState} {cutoff : Option ℤ} {m : ArtifactManifest}
    (h : m ∈ w.scan state cutoff) : m ∈ w.manifests ∧ ArtifactWorld.due state cutoff m = true := by
  have hsorted := List.mem_of_mem_take h
  rw [List.mem_insertionSort] at hsorted
  exact List.mem_filter.mp hsorted

theorem state_of_due {state : ArtifactManifestState} {cutoff : Option ℤ} {m : ArtifactManifest}
    (h : ArtifactWorld.due state cutoff m = true) : m.state = state := by
  rw [ArtifactWorld.due, Bool.and_eq_true, beq_iff_eq] at h
  exact h.1

theorem nodup_scan (hw : w.WellFormed) (state : ArtifactManifestState) (cutoff : Option ℤ) :
    ((w.scan state cutoff).map (·.artifactId)).Nodup := by
  have hperm := List.perm_insertionSort (fun a b : ArtifactManifest => a._id ≤ b._id)
    (w.manifests.filter (ArtifactWorld.due state cutoff))
  refine ((List.take_sublist _ _).map _).nodup ?_
  rw [(hperm.map _).nodup_iff]
  exact (List.filter_sublist.map _).nodup hw.artifactIds

end Sweeps

section Pass

variable {N : Type} [DecidableEq N] (platform : Platform N) (config : ArtifactConfig)

/-- The cutoff of a period before `now`. -/
def cutoff (now : Time) (period : ℕ) : ℤ := (now : ℤ) - period

/-- The manifests that a scan finds are changed by `f`. -/
def ArtifactWorld.swept (w : ArtifactWorld) (state : ArtifactManifestState) (cutoff : Option ℤ)
    (f : ArtifactManifest → Option ArtifactManifest) : ArtifactWorld :=
  w.rewrite (among ((w.scan state cutoff).map (·.artifactId)) f)

def judged (w : ArtifactWorld) (m : ArtifactManifest) : Option ArtifactManifest :=
  some ((verdict platform config w m).apply w.clock m)

def afterWriting (now : Time) (w : ArtifactWorld) : ArtifactWorld :=
  w.swept .writing (some (cutoff now config.writingTimeoutMs)) (judged platform config w)

def afterDeletePending (w : ArtifactWorld) : ArtifactWorld :=
  w.swept .deletePending none (released w)

def afterReady (now : Time) (w : ArtifactWorld) : ArtifactWorld :=
  w.swept .ready (some (cutoff now config.orphanRetentionMs)) (retired w)

/-- The world after a pass at `now`. -/
def ArtifactWorld.pass (now : Time) (w : ArtifactWorld) : ArtifactWorld :=
  afterReady config now (afterDeletePending (afterWriting platform config now w))

variable {platform config} {uuids : Uuids} {w : ArtifactWorld} {now : Time}

theorem keeps_judged (w : ArtifactWorld) : Keeps (judged platform config w) := by
  intro m m' h
  cases h
  exact Keeps.apply _ _ m _ rfl

theorem rewrite_only_congr (hw : w.WellFormed) {m : ArtifactManifest} (hm : m ∈ w.manifests)
    {f g : ArtifactManifest → Option ArtifactManifest} (h : f m = g m) :
    w.rewrite (only m.artifactId f) = w.rewrite (only m.artifactId g) := by
  refine ArtifactWorld.rewrite_congr fun m' hm' => ?_
  unfold only
  split_ifs with hid
  · rw [hw.eq_of_artifactId hm' hm hid, h]
  · rfl

theorem evaluate_reconcileWriting (hw : w.WellFormed) :
    (reconcileWriting platform config (cutoff now config.writingTimeoutMs)).evaluate
      (ArtifactWorld.exec uuids) w = (.ok (), afterWriting platform config now w) := by
  have hscan := (@evaluate_performOp uuids (.scan .writing (some (cutoff now config.writingTimeoutMs))) w) rfl
  refine (Prog.evaluate_bind_ok hscan _).trans ?_
  refine evaluate_sweep (J := fun v => v.blobs = w.blobs ∧ v.clock = w.clock)
    (p := fun m => m.state = .writing) (keeps_judged w) ?_ ?_ hw ⟨rfl, rfl⟩ ?_
    (nodup_scan hw _ _)
  · rintro v artifactId ⟨hblobs, hclock⟩
    refine ⟨(ArtifactWorld.blobs_rewrite_of_some fun m _ => ?_).trans hblobs, hclock⟩
    unfold only
    split_ifs <;> exact Option.some_ne_none _
  · rintro v m hv ⟨hblobs, hclock⟩ hm hwriting
    refine (evaluate_reconcileWritten hv hm hwriting).trans (congrArg (Prod.mk _) ?_)
    refine rewrite_only_congr hv hm ?_
    unfold judged verdict ArtifactWorld.fetch
    rw [hblobs, hclock]
  · exact fun m hm => ⟨(mem_scan hm).1, state_of_due (mem_scan hm).2⟩

theorem evaluate_reconcileDeletePending (hw : w.WellFormed) :
    reconcileDeletePending.evaluate (ArtifactWorld.exec uuids) w =
      (.ok (), afterDeletePending w) := by
  have hscan := (@evaluate_performOp uuids (.scan .deletePending none) w) rfl
  refine (Prog.evaluate_bind_ok hscan _).trans ?_
  refine evaluate_sweep (J := fun v => v.Referenced = w.Referenced ∧ v.clock = w.clock)
    (p := fun m => m.state = .deletePending) (keeps_released w) (fun _ _ h => h) ?_ hw ⟨rfl, rfl⟩
    ?_ (nodup_scan hw _ _)
  · rintro v m hv ⟨hreferenced, hclock⟩ hm hpending
    refine (evaluate_deletePendingManifest hv hm hpending rfl rfl).trans (congrArg (Prod.mk _) ?_)
    refine rewrite_only_congr hv hm ?_
    unfold released
    rw [hreferenced, hclock]
  · exact fun m hm => ⟨(mem_scan hm).1, state_of_due (mem_scan hm).2⟩

theorem evaluate_reconcileReady (hw : w.WellFormed) :
    (reconcileReady (cutoff now config.orphanRetentionMs)).evaluate (ArtifactWorld.exec uuids) w =
      (.ok (), afterReady config now w) := by
  have hscan := (@evaluate_performOp uuids (.scan .ready (some (cutoff now config.orphanRetentionMs))) w) rfl
  refine (Prog.evaluate_bind_ok hscan _).trans ?_
  refine evaluate_sweep (J := fun v => v.Referenced = w.Referenced)
    (p := fun m => m.state = .ready) (keeps_retired w) (fun _ _ h => h) ?_ hw rfl ?_
    (nodup_scan hw _ _)
  · rintro v m hv hreferenced hm hready
    refine (evaluate_reconcileOrphan hv hm hready).trans (congrArg (Prod.mk _) ?_)
    refine rewrite_only_congr hv hm ?_
    unfold retired
    rw [hreferenced]
  · exact fun m hm => ⟨(mem_scan hm).1, state_of_due (mem_scan hm).2⟩

theorem wellFormed_afterWriting (hw : w.WellFormed) :
    (afterWriting platform config now w).WellFormed := hw.rewrite ((keeps_judged w).among _)

theorem wellFormed_afterDeletePending (hw : w.WellFormed) :
    (afterDeletePending w).WellFormed := hw.rewrite ((keeps_released w).among _)

theorem wellFormed_afterReady (hw : w.WellFormed) : (afterReady config now w).WellFormed :=
  hw.rewrite ((keeps_retired w).among _)

theorem wellFormed_pass (hw : w.WellFormed) : (w.pass platform config now).WellFormed :=
  wellFormed_afterReady (wellFormed_afterDeletePending (wellFormed_afterWriting hw))

/-- A pass does what its three parts do. -/
theorem evaluate_reconcileArtifacts (hw : w.WellFormed) :
    (reconcileArtifacts platform config now).evaluate (ArtifactWorld.exec uuids) w =
      (.ok (), w.pass platform config now) := by
  have hwriting := (@wellFormed_afterWriting _ _ platform config _ now) hw
  have hpending := wellFormed_afterDeletePending hwriting
  exact (Prog.evaluate_bind_ok (evaluate_reconcileWriting hw) _).trans
    ((Prog.evaluate_bind_ok (evaluate_reconcileDeletePending hwriting) _).trans
      (evaluate_reconcileReady hpending))

end Pass

end AppBuilder.Artifacts
