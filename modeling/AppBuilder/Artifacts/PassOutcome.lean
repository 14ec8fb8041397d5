import AppBuilder.Artifacts.Reading
import AppBuilder.Artifacts.Reconciliation

/-! The state to which a pass brings each manifest, and the state that the design lays down. -/
namespace AppBuilder.Artifacts
open Agent Async Encoding

section Fate

variable {N : Type} [DecidableEq N] (platform : Platform N) (config : ArtifactConfig)

/-- The manifest was not updated during the period before now. -/
def ArtifactManifest.Older (manifest : ArtifactManifest) (now : Time) (period : ℕ) : Prop :=
  (manifest.updatedAt : ℤ) ≤ cutoff now period

instance (manifest : ArtifactManifest) (now : Time) (period : ℕ) :
    Decidable (manifest.Older now period) := inferInstanceAs (Decidable (_ ≤ _))

/-- What a pass makes of a manifest that it gets to see. -/
def fate (w : ArtifactWorld) (m : ArtifactManifest) : Option ArtifactManifest :=
  match m.state with
  | .writing =>
    if m.Older w.clock config.writingTimeoutMs then judged platform config w m else some m
  | .ready => if m.Older w.clock config.orphanRetentionMs then retired w m else some m
  | .corrupt => some m
  | .deletePending => released w m

variable {platform config} {w : ArtifactWorld} {m : ArtifactManifest}

theorem fate_writing (h : m.state = .writing) : fate platform config w m =
    if m.Older w.clock config.writingTimeoutMs then judged platform config w m else some m := by
  rw [fate, h]

theorem fate_ready (h : m.state = .ready) : fate platform config w m =
    if m.Older w.clock config.orphanRetentionMs then retired w m else some m := by
  rw [fate, h]

theorem fate_corrupt (h : m.state = .corrupt) : fate platform config w m = some m := by
  rw [fate, h]

theorem fate_deletePending (h : m.state = .deletePending) :
    fate platform config w m = released w m := by
  rw [fate, h]

/-- A batch takes in all manifests that are due. -/
theorem mem_scan_iff (hsmall : w.manifests.length ≤ RECONCILER_BATCH_SIZE)
    {state : ArtifactManifestState} {cutoff : Option ℤ} :
    m ∈ w.scan state cutoff ↔ m ∈ w.manifests ∧ ArtifactWorld.due state cutoff m = true := by
  unfold ArtifactWorld.scan
  rw [List.take_of_length_le, List.mem_insertionSort, List.mem_filter]
  rw [List.length_insertionSort]
  exact (List.length_filter_le ..).trans hsmall

theorem swept_eq (hw : w.WellFormed) (hsmall : w.manifests.length ≤ RECONCILER_BATCH_SIZE)
    (state : ArtifactManifestState) (cutoff : Option ℤ)
    (f : ArtifactManifest → Option ArtifactManifest) : w.swept state cutoff f =
      w.rewrite fun m => if ArtifactWorld.due state cutoff m = true then f m else some m := by
  refine ArtifactWorld.rewrite_congr fun m hm => ?_
  unfold among
  refine if_congr ?_ rfl rfl
  rw [List.mem_map]
  constructor
  · rintro ⟨m', hm', hid⟩
    obtain ⟨hmem, hdue⟩ := (mem_scan_iff hsmall).mp hm'
    rwa [hw.eq_of_artifactId hmem hm hid] at hdue
  · intro hdue
    exact ⟨m, (mem_scan_iff hsmall).mpr ⟨hm, hdue⟩, rfl⟩

theorem length_rewrite_le (f : ArtifactManifest → Option ArtifactManifest) :
    (w.rewrite f).manifests.length ≤ w.manifests.length := List.length_filterMap_le ..

theorem due_iff {state : ArtifactManifestState} {now : Time} {period : ℕ} :
    ArtifactWorld.due state (some (cutoff now period)) m = true ↔
      m.state = state ∧ m.Older now period := by
  rw [ArtifactWorld.due, Bool.and_eq_true, beq_iff_eq, Option.all_some, decide_eq_true_iff]
  rfl

theorem due_none_iff {state : ArtifactManifestState} :
    ArtifactWorld.due state none m = true ↔ m.state = state := by
  rw [ArtifactWorld.due, Bool.and_eq_true, beq_iff_eq, Option.all_none, and_iff_left rfl]

/-- What was updated just now is not past its retention. -/
theorem not_older_of_updated (hretention : 0 < config.orphanRetentionMs) {now : Time}
    (h : m.updatedAt = now) : ¬ m.Older now config.orphanRetentionMs := by
  rw [ArtifactManifest.Older, cutoff, h]
  omega

theorem updatedAt_apply (change : ManifestChange) (now : Time) (m : ArtifactManifest) :
    (change.apply now m).updatedAt = now := by cases change <;> rfl

@[simp] theorem released_rewrite (f : ArtifactManifest → Option ArtifactManifest) :
    released (w.rewrite f) = released w := rfl

@[simp] theorem retired_rewrite (f : ArtifactManifest → Option ArtifactManifest) :
    retired (w.rewrite f) = retired w := rfl

/-- A pass over at most one batch decides for each manifest on its own. -/
theorem pass_eq_fate (hw : w.WellFormed) (hretention : 0 < config.orphanRetentionMs)
    (hsmall : w.manifests.length ≤ RECONCILER_BATCH_SIZE) :
    w.pass platform config w.clock = w.rewrite (fate platform config w) := by
  have hjudged := (@keeps_judged _ _ platform config) w
  have hif : ∀ {c : ArtifactManifest → Prop} [DecidablePred c]
      {f : ArtifactManifest → Option ArtifactManifest}, Keeps f →
      Keeps fun m => if c m then f m else some m := by
    intro c _ f hf m m' h
    dsimp only at h
    split_ifs at h
    · exact hf m m' h
    · cases h
      rfl
  have hwriting := (@wellFormed_afterWriting _ _ platform config _ w.clock) hw
  have hpending := wellFormed_afterDeletePending hwriting
  have hsmall₁ : (afterWriting platform config w.clock w).manifests.length ≤
      RECONCILER_BATCH_SIZE := (length_rewrite_le _).trans hsmall
  have hsmall₂ : (afterDeletePending (afterWriting platform config w.clock w)).manifests.length ≤
      RECONCILER_BATCH_SIZE := (length_rewrite_le _).trans hsmall₁
  unfold ArtifactWorld.pass
  refine (swept_eq hpending hsmall₂ _ _ _).trans ?_
  rw [afterDeletePending, swept_eq hwriting hsmall₁, afterWriting, swept_eq hw hsmall,
    ArtifactWorld.rewrite_rewrite (hif hjudged),
    ArtifactWorld.rewrite_rewrite ((hif hjudged).bind (hif (keeps_released _)))]
  refine ArtifactWorld.rewrite_congr fun m _ => ?_
  simp only [due_iff, due_none_iff, released_rewrite, retired_rewrite]
  unfold fate
  cases hstate : m.state with
  | writing =>
    by_cases hold : m.Older w.clock config.writingTimeoutMs
    · have hsettled : ((verdict platform config w m).apply w.clock m).state ≠ .deletePending := by
        rcases verdict_cases platform config w m with ⟨hv, -⟩ | ⟨code, hv, -⟩ <;>
        · rw [hv]
          intro h
          cases h
      have hfresh := not_older_of_updated hretention
        (updatedAt_apply (verdict platform config w m) w.clock m)
      simp only [hold, and_self, if_true, judged, Option.bind_some, hsettled, if_false, hfresh,
        and_false]
    · simp [hstate, hold]
  | ready =>
    by_cases hold : m.Older w.clock config.orphanRetentionMs
    · simp [hstate, hold]
    · simp [hstate, hold]
  | corrupt => simp [hstate]
  | deletePending =>
    simp only [hstate, reduceCtorEq, false_and, if_false, Option.bind_some, if_true]
    unfold released
    split_ifs with href
    · have hfresh := not_older_of_updated hretention
        (updatedAt_apply (.moveTo .ready) w.clock m)
      simp only [Option.bind_some, hfresh, and_false, if_false]
    · rfl

end Fate

section Design

variable {N : Type} [DecidableEq N] (platform : Platform N) (config : ArtifactConfig)

/-- The manifest is now in this state, and its blob is as it was. -/
def Becomes (w w' : ArtifactWorld) (m : ArtifactManifest) (state : ArtifactManifestState) : Prop :=
  (∃ m', w'.manifest? m.artifactId = some m' ∧ m'.record = m.record ∧ m'.state = state) ∧
    w'.blobs m.storageKey = w.blobs m.storageKey

/-- The manifest is gone with its blob. -/
def Removed (w' : ArtifactWorld) (m : ArtifactManifest) : Prop :=
  w'.manifest? m.artifactId = none ∧ w'.blobs m.storageKey = none

def Unchanged (w w' : ArtifactWorld) (m : ArtifactManifest) : Prop :=
  w'.manifest? m.artifactId = some m ∧ w'.blobs m.storageKey = w.blobs m.storageKey

/-- Nothing refers to the artifact, and its retention is over. -/
def Orphaned (w : ArtifactWorld) (m : ArtifactManifest) : Prop :=
  ¬ w.Referenced m.artifactId ∧ m.Older w.clock config.orphanRetentionMs

/-- The rules of the design for one manifest. -/
def LaidDownFor (w w' : ArtifactWorld) (m : ArtifactManifest) : Prop :=
  match m.state with
  | .writing =>
    (m.Older w.clock config.writingTimeoutMs → Verifies platform config w m →
      Becomes w w' m .ready) ∧
    (m.Older w.clock config.writingTimeoutMs → ¬ Verifies platform config w m →
      Becomes w w' m .corrupt) ∧
    (¬ m.Older w.clock config.writingTimeoutMs → Unchanged w w' m)
  | .ready =>
    (¬ Verifies platform config w m → Becomes w w' m .corrupt) ∧
    (Verifies platform config w m → Orphaned config w m → Removed w' m) ∧
    (Verifies platform config w m → ¬ Orphaned config w m → Unchanged w w' m)
  | .corrupt => Unchanged w w' m
  | .deletePending =>
    (w.Referenced m.artifactId → Becomes w w' m .ready) ∧
    (¬ w.Referenced m.artifactId → Removed w' m)

/-- The state that the design lays down for all manifests and blobs. -/
structure LaidDown (w w' : ArtifactWorld) : Prop where
  manifests : ∀ m ∈ w.manifests, LaidDownFor platform config w w' m
  created : ∀ m' ∈ w'.manifests, ∃ m ∈ w.manifests, m.record = m'.record
  blobs : ∀ key, (∀ m ∈ w.manifests, m.storageKey ≠ key) → w'.blobs key = w.blobs key

variable {platform config} {uuids : Uuids} {w : ArtifactWorld} {m : ArtifactManifest}

theorem keeps_fate (w : ArtifactWorld) : Keeps (fate platform config w) := by
  intro m m' h
  unfold fate at h
  split at h
  · split_ifs at h
    · exact keeps_judged w m m' h
    · cases h
      rfl
  · split_ifs at h
    · exact keeps_retired w m m' h
    · cases h
      rfl
  · cases h
    rfl
  · exact keeps_released w m m' h

/-- The outcome of a rewriting for one manifest. -/
theorem rewrite_outcome {f : ArtifactManifest → Option ArtifactManifest} (hw : w.WellFormed)
    (hf : Keeps f) (hm : m ∈ w.manifests) :
    (f m = none → Removed (w.rewrite f) m) ∧ (f m = some m → Unchanged w (w.rewrite f) m) ∧
      ∀ m', f m = some m' → Becomes w (w.rewrite f) m m'.state := by
  have hfound := ArtifactWorld.manifest?_rewrite hw hf hm
  have hblob := ArtifactWorld.blobs_rewrite (f := f) hw hm
  refine ⟨fun h => ?_, fun h => ?_, fun m' h => ?_⟩
  · rw [h] at hfound hblob
    exact ⟨hfound, hblob⟩
  · rw [h] at hfound hblob
    exact ⟨hfound, hblob⟩
  · rw [h] at hfound hblob
    exact ⟨⟨m', hfound, hf m m' h, rfl⟩, hblob⟩

theorem not_becomes_corrupt_of_fate (hw : w.WellFormed) (hm : m ∈ w.manifests)
    (hready : m.state = .ready) :
    ¬ Becomes w (w.rewrite (fate platform config w)) m .corrupt := by
  rintro ⟨⟨m', hfound, -, hcorrupt⟩, -⟩
  rw [ArtifactWorld.manifest?_rewrite hw (keeps_fate w) hm] at hfound
  rw [fate_ready hready] at hfound
  unfold retired at hfound
  split_ifs at hfound
  all_goals
    cases hfound
    rw [hready] at hcorrupt
    cases hcorrupt

/-- One pass over at most one batch leaves what the design lays down exactly if all ready manifests
have blobs that verify: it never looks at those. -/
theorem pass_laidDown_iff (hw : w.WellFormed) (hretention : 0 < config.orphanRetentionMs)
    (hsmall : w.manifests.length ≤ RECONCILER_BATCH_SIZE) :
    LaidDown platform config w ((reconcileArtifacts platform config w.clock).evaluate
        (ArtifactWorld.exec uuids) w).2 ↔
      ∀ m ∈ w.manifests, m.state = .ready → Verifies platform config w m := by
  rw [evaluate_reconcileArtifacts hw, pass_eq_fate hw hretention hsmall]
  constructor
  · intro h m hm hready
    by_contra hbad
    have hrule := h.manifests m hm
    unfold LaidDownFor at hrule
    rw [hready] at hrule
    exact not_becomes_corrupt_of_fate hw hm hready (hrule.1 hbad)
  · intro h
    refine ⟨fun m hm => ?_, fun m' hm' => ?_, fun key hkey => ?_⟩
    · obtain ⟨hremoved, hunchanged, hbecomes⟩ := rewrite_outcome (f := fate platform config w) hw
        (keeps_fate w) hm
      unfold LaidDownFor
      cases hstate : m.state with
      | writing =>
        have hfate := (@fate_writing _ _ platform config w) hstate
        refine ⟨fun hold hverifies => ?_, fun hold hbad => ?_, fun hyoung => ?_⟩
        · have hsettled := hbecomes _ (hfate.trans (if_pos hold))
          rcases verdict_cases platform config w m with ⟨hv, -⟩ | ⟨code, -, hbad⟩
          · rwa [hv] at hsettled
          · exact absurd hverifies hbad
        · have hsettled := hbecomes _ (hfate.trans (if_pos hold))
          rcases verdict_cases platform config w m with ⟨-, hverifies⟩ | ⟨code, hv, -⟩
          · exact absurd hverifies hbad
          · rwa [hv] at hsettled
        · exact hunchanged (hfate.trans (if_neg hyoung))
      | ready =>
        have hverifies := h m hm hstate
        have hfate := (@fate_ready _ _ platform config w) hstate
        refine ⟨fun hbad => absurd hverifies hbad, fun _ horphan => hremoved ?_,
          fun _ hkept => hunchanged ?_⟩
        · exact hfate.trans ((if_pos horphan.2).trans (if_neg horphan.1))
        · rw [hfate]
          split_ifs with hold
          · refine if_pos ?_
            by_contra href
            exact hkept ⟨href, hold⟩
          · rfl
      | corrupt => exact hunchanged (fate_corrupt hstate)
      | deletePending =>
        have hfate := (@fate_deletePending _ _ platform config w) hstate
        refine ⟨fun href => hbecomes _ (hfate.trans (if_pos href)), fun hfree => hremoved ?_⟩
        exact hfate.trans (if_neg hfree)
    · obtain ⟨m, hm, hfm⟩ := ArtifactWorld.mem_rewrite.mp hm'
      exact ⟨m, hm, (keeps_fate w m m' hfm).symm⟩
    · exact ArtifactWorld.blobs_rewrite_of_not_dropped fun m hm hsame => absurd hsame (hkey m hm)

end Design

section Sample

def sampleConfig : ArtifactConfig := ⟨sampleLimits, 5, 100⟩

theorem sample_verifies : Verifies samplePlatform sampleConfig sampleWorld sampleManifest :=
  ⟨sampleStream, sample_blob, by decide +kernel, .preview (storedBundle sampleFiles),
    by decide +kernel⟩

theorem sample_laidDown : LaidDown samplePlatform sampleConfig sampleWorld
    ((reconcileArtifacts samplePlatform sampleConfig sampleWorld.clock).evaluate
      (ArtifactWorld.exec countedUuids) sampleWorld).2 := by
  refine (pass_laidDown_iff sampleWorld_wellFormed (by decide) (by decide)).mpr fun m hm _ => ?_
  cases List.mem_singleton.mp hm
  exact sample_verifies

/-- A snapshot still refers to an artifact whose blob is lost. -/
def lostWorld : ArtifactWorld :=
  { sampleWorld with
    blobs := fun _ => none
    snapshots := [⟨text "another", some sampleManifest.artifactId⟩] }

theorem lost_blob_unnoticed : ¬ ∀ w : ArtifactWorld, w.WellFormed →
    w.manifests.length ≤ RECONCILER_BATCH_SIZE →
    LaidDown samplePlatform sampleConfig w
      ((reconcileArtifacts samplePlatform sampleConfig w.clock).evaluate
        (ArtifactWorld.exec countedUuids) w).2 := by
  intro h
  have hw : lostWorld.WellFormed := ⟨by decide, by decide, by decide, by decide⟩
  have hlaid := h lostWorld hw (by decide)
  rw [evaluate_reconcileArtifacts hw, pass_eq_fate hw (by decide) (by decide)] at hlaid
  have hmem : sampleManifest ∈ lostWorld.manifests := List.mem_singleton.mpr rfl
  have hrule : LaidDownFor samplePlatform sampleConfig lostWorld _ sampleManifest :=
    hlaid.manifests sampleManifest hmem
  refine not_becomes_corrupt_of_fate hw hmem rfl (hrule.1 ?_)
  rintro ⟨bytes, hblob, -⟩
  cases hblob

end Sample

end AppBuilder.Artifacts
