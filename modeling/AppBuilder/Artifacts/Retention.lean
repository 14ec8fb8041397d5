import AppBuilder.Artifacts.PassOutcome
import AppBuilder.Listing.Batch

/-! Artifacts past their retention, over passes of the reconciler without other actors. -/
namespace AppBuilder.Artifacts
open Agent Async Encoding

variable {N : Type} [DecidableEq N]

section Runs

variable (platform : Platform N) (config : ArtifactConfig) (uuids : Uuids)

def ArtifactWorld.later (w : ArtifactWorld) (elapsed : ℕ) : ArtifactWorld :=
  { w with clock := w.clock + elapsed }

/-- A pass of the reconciler, `elapsed` milliseconds after the last one. -/
def passAfter (w : ArtifactWorld) (elapsed : ℕ) : ArtifactWorld :=
  ((reconcileArtifacts platform config (w.later elapsed).clock).evaluate
    (ArtifactWorld.exec uuids) (w.later elapsed)).2

/-- The world after the first `n` passes. -/
def passes (w : ArtifactWorld) (elapsed : ℕ → ℕ) : ℕ → ArtifactWorld
  | 0 => w
  | n + 1 => passAfter platform config uuids (passes w elapsed n) (elapsed n)

/-- Ready and past its retention. -/
def Lapsed (w : ArtifactWorld) (m : ArtifactManifest) : Prop :=
  m.state = .ready ∧ m.Older w.clock config.orphanRetentionMs

instance (w : ArtifactWorld) (m : ArtifactManifest) : Decidable (Lapsed config w m) :=
  inferInstanceAs (Decidable (_ ∧ _))

/-- What retention is there to delete. -/
def Reclaimable (w : ArtifactWorld) (m : ArtifactManifest) : Prop :=
  Lapsed config w m ∧ ¬ w.Referenced m.artifactId

instance (w : ArtifactWorld) (m : ArtifactManifest) : Decidable (Reclaimable config w m) :=
  inferInstanceAs (Decidable (_ ∧ _))

/-- How many manifests stand before `m` in every batch: they are due, and references keep them. -/
def kept (w : ArtifactWorld) (m : ArtifactManifest) : ℕ :=
  (w.manifests.filter fun r => Lapsed config w r ∧ w.Referenced r.artifactId).countP
    fun r => r._id < m._id

end Runs

section Pass

variable {platform : Platform N} {config : ArtifactConfig} {w : ArtifactWorld}
  {m m' : ArtifactManifest}

/-- What the first two parts of a pass make of a manifest. -/
def prepared (platform : Platform N) (config : ArtifactConfig) (w : ArtifactWorld)
    (m : ArtifactManifest) : Option ArtifactManifest :=
  (among ((w.scan .writing (some (cutoff w.clock config.writingTimeoutMs))).map (·.artifactId))
    (judged platform config w) m).bind
    (among (((afterWriting platform config w.clock w).scan .deletePending none).map (·.artifactId))
      (released w))

/-- What a whole pass makes of it. -/
def passFate (platform : Platform N) (config : ArtifactConfig) (w : ArtifactWorld)
    (m : ArtifactManifest) : Option ArtifactManifest :=
  (prepared platform config w m).bind
    (among ((w.scan .ready (some (cutoff w.clock config.orphanRetentionMs))).map (·.artifactId))
      (retired w))

theorem keeps_prepared (w : ArtifactWorld) : Keeps (prepared platform config w) :=
  ((keeps_judged w).among _).bind ((keeps_released w).among _)

theorem keeps_passFate (w : ArtifactWorld) : Keeps (passFate platform config w) :=
  (keeps_prepared w).bind ((keeps_retired w).among _)

/-- No manifest that a scan does not look for is in its batch. -/
theorem among_scan_of_state {v : ArtifactWorld} (hv : v.WellFormed) (hm : m ∈ v.manifests)
    {state : ArtifactManifestState} {cutoff : Option ℤ}
    (hstate : m.state ≠ state) (f : ArtifactManifest → Option ArtifactManifest) :
    among ((v.scan state cutoff).map (·.artifactId)) f m = some m := by
  refine if_neg fun hmem => ?_
  obtain ⟨other, ho, hid⟩ := List.mem_map.mp hmem
  cases hv.eq_of_artifactId (mem_scan ho).1 hm hid
  exact hstate (state_of_due (mem_scan ho).2)

theorem prepared_of_ready (hw : w.WellFormed) (hm : m ∈ w.manifests) (hready : m.state = .ready) :
    prepared platform config w m = some m := by
  have hfirst : among ((w.scan .writing (some (cutoff w.clock config.writingTimeoutMs))).map
      (·.artifactId)) (judged platform config w) m = some m :=
    among_scan_of_state hw hm (by rw [hready]; exact nofun) _
  have hmem : m ∈ (afterWriting platform config w.clock w).manifests :=
    ArtifactWorld.mem_rewrite.mpr ⟨m, hm, hfirst⟩
  rw [prepared, hfirst, Option.bind_some]
  exact among_scan_of_state (wellFormed_afterWriting hw) hmem (by rw [hready]; exact nofun) _

/-- What becomes ready in a pass is fresh. -/
theorem eq_of_prepared (hretention : 0 < config.orphanRetentionMs)
    (hp : prepared platform config w m = some m')
    (hlapsed : Lapsed config w m') : m' = m := by
  obtain ⟨middle, hmiddle, hlast⟩ := Option.bind_eq_some_iff.mp hp
  have hfresh : ∀ change : ManifestChange, ∀ r, m' ≠ change.apply w.clock r := by
    rintro change r rfl
    exact not_older_of_updated hretention (updatedAt_apply ..) hlapsed.2
  have hlast' : m' = middle := by
    unfold among released at hlast
    split_ifs at hlast
    · cases hlast
      exact absurd rfl (hfresh (.moveTo .ready) middle)
    · cases hlast
      rfl
  unfold among judged at hmiddle
  split_ifs at hmiddle
  · cases hmiddle
    exact absurd hlast' (hfresh _ m)
  · cases hmiddle
    exact hlast'

/-- The first two parts do not change what the third one finds. -/
theorem filter_prepared (hretention : 0 < config.orphanRetentionMs) (hw : w.WellFormed)
    {p : ArtifactManifest → Bool} (hp : ∀ m, p m = true → Lapsed config w m) :
    (w.manifests.filterMap (prepared platform config w)).filter p = w.manifests.filter p := by
  refine Listing.filter_filterMap (fun m hm h => prepared_of_ready hw hm (hp m h).1) ?_
  exact fun m _ m' he h => eq_of_prepared hretention he (hp m' h)

theorem due_ready_iff :
    ArtifactWorld.due .ready (some (cutoff w.clock config.orphanRetentionMs)) m = true ↔
      Lapsed config w m := due_iff

/-- A pass rewrites each manifest. -/
theorem pass_eq_passFate (hretention : 0 < config.orphanRetentionMs) (hw : w.WellFormed) :
    w.pass platform config w.clock = w.rewrite (passFate platform config w) := by
  have hprepared : afterDeletePending (afterWriting platform config w.clock w) =
      w.rewrite (prepared platform config w) :=
    ArtifactWorld.rewrite_rewrite ((keeps_judged w).among _) _
  have hscan : (w.rewrite (prepared platform config w)).scan .ready
      (some (cutoff w.clock config.orphanRetentionMs)) =
      w.scan .ready (some (cutoff w.clock config.orphanRetentionMs)) := by
    unfold ArtifactWorld.scan
    refine congrArg (List.take _) (congrArg (List.insertionSort _) ?_)
    exact filter_prepared hretention hw fun m h => due_ready_iff.mp h
  unfold ArtifactWorld.pass afterReady ArtifactWorld.swept
  rw [hprepared, hscan, retired_rewrite, ArtifactWorld.rewrite_rewrite (keeps_prepared w)]
  rfl

end Pass

section Progress

variable {platform : Platform N} {config : ArtifactConfig} {uuids : Uuids} {w v : ArtifactWorld}
  {m m' : ArtifactManifest}

/-- What the last part of a pass takes up. -/
def readyBatch (config : ArtifactConfig) (v : ArtifactWorld) : List ArtifactManifest :=
  v.scan .ready (some (cutoff v.clock config.orphanRetentionMs))

theorem sorted_due (hv : v.WellFormed) (p : ArtifactManifest → Bool) :
    ((v.manifests.filter p).insertionSort fun a b => a._id ≤ b._id).Pairwise
      fun a b => a._id < b._id := by
  have hids : ((v.manifests.filter p).map (·._id)).Nodup :=
    (List.filter_sublist.map _).nodup hv.ids
  exact Listing.pairwise_insertionSort_lt (fun m : ArtifactManifest => m._id) hids

/-- Only manifests with smaller ids are taken up before `m`. -/
theorem mem_readyBatch_iff (hv : v.WellFormed) (hm : m ∈ v.manifests) (h : Lapsed config v m) :
    m ∈ readyBatch config v ↔
      (v.manifests.filter fun r => decide (Lapsed config v r)).countP (fun r => r._id < m._id) <
        RECONCILER_BATCH_SIZE := by
  have hdue : ArtifactWorld.due .ready (some (cutoff v.clock config.orphanRetentionMs)) =
      fun r => decide (Lapsed config v r) := by
    funext r
    rw [Bool.eq_iff_iff, due_ready_iff, decide_eq_true_iff]
  have hsorted := sorted_due hv fun r => decide (Lapsed config v r)
  have hmem : m ∈ (v.manifests.filter fun r => decide (Lapsed config v r)).insertionSort
      fun a b => a._id ≤ b._id :=
    (List.mem_insertionSort _).mpr (List.mem_filter.mpr ⟨hm, decide_eq_true h⟩)
  have hperm := List.perm_insertionSort (fun a b : ArtifactManifest => a._id ≤ b._id)
    (v.manifests.filter fun r => decide (Lapsed config v r))
  have hiff := @Listing.mem_take_iff _ _ _ (fun r : ArtifactManifest => r._id) _ _
    RECONCILER_BATCH_SIZE hsorted hmem
  rw [hperm.countP_eq] at hiff
  rw [readyBatch, ArtifactWorld.scan, hdue]
  exact hiff

theorem passFate_of_lapsed (hv : v.WellFormed) (hm : m ∈ v.manifests) (h : Lapsed config v m) :
    passFate platform config v m =
      if m ∈ readyBatch config v ∧ ¬ v.Referenced m.artifactId then none else some m := by
  rw [passFate, prepared_of_ready hv hm h.1, Option.bind_some]
  have hmem : m.artifactId ∈ (readyBatch config v).map (·.artifactId) ↔ m ∈ readyBatch config v := by
    constructor
    · intro hid
      obtain ⟨other, ho, he⟩ := List.mem_map.mp hid
      cases hv.eq_of_artifactId (mem_scan ho).1 hm he
      exact ho
    · exact fun hb => List.mem_map.mpr ⟨m, hb, rfl⟩
  change among ((readyBatch config v).map (·.artifactId)) (retired v) m = _
  unfold among retired
  simp only [hmem]
  by_cases hb : m ∈ readyBatch config v
  · by_cases href : v.Referenced m.artifactId
    · simp [href]
    · simp [hb, href]
  · simp [hb]

theorem kept_eq_countP (m : ArtifactManifest) :
    kept config v m = v.manifests.countP fun r =>
      decide (r._id < m._id) && decide (Lapsed config v r ∧ v.Referenced r.artifactId) :=
  List.countP_filter

/-- A full batch of referenced manifests stands before what it leaves over. -/
theorem kept_of_referenced (hv : v.WellFormed) (hm : m ∈ v.manifests) (h : Lapsed config v m)
    (hleft : m ∉ readyBatch config v)
    (hall : ∀ r ∈ readyBatch config v, v.Referenced r.artifactId) :
    RECONCILER_BATCH_SIZE ≤ kept config v m := by
  let due : List ArtifactManifest := (v.manifests.filter (ArtifactWorld.due .ready
    (some (cutoff v.clock config.orphanRetentionMs)))).insertionSort fun a b => a._id ≤ b._id
  have hsorted : due.Pairwise fun a b => a._id < b._id := sorted_due hv _
  have hmem : m ∈ due :=
    (List.mem_insertionSort _).mpr (List.mem_filter.mpr ⟨hm, due_ready_iff.mpr h⟩)
  let before : ArtifactManifest → Bool := fun r =>
    decide (r._id < m._id) && decide (v.Referenced r.artifactId)
  have hbatch : ∀ r ∈ due.take RECONCILER_BATCH_SIZE, before r = true := by
    intro r hr
    have hlt := Listing.key_lt_of_mem_take hsorted hr hmem hleft
    simp only [before, hlt, hall r hr, decide_true, Bool.and_self]
  calc RECONCILER_BATCH_SIZE
      = (due.take RECONCILER_BATCH_SIZE).length := (Listing.length_take_of_not_mem hmem hleft).symm
    _ = (due.take RECONCILER_BATCH_SIZE).countP before := (List.countP_eq_length.mpr hbatch).symm
    _ ≤ due.countP before := (List.take_sublist _ _).countP_le
    _ = (v.manifests.filter (ArtifactWorld.due .ready
          (some (cutoff v.clock config.orphanRetentionMs)))).countP before :=
        (List.perm_insertionSort _ _).countP_eq _
    _ = v.manifests.countP fun r => before r &&
          ArtifactWorld.due .ready (some (cutoff v.clock config.orphanRetentionMs)) r :=
        List.countP_filter
    _ ≤ v.manifests.countP fun r =>
          decide (r._id < m._id) && decide (Lapsed config v r ∧ v.Referenced r.artifactId) := by
        refine List.countP_mono_left fun r _ hr => ?_
        simp only [before, Bool.and_eq_true, decide_eq_true_eq, due_ready_iff] at hr ⊢
        exact ⟨hr.1.1, hr.2, hr.1.2⟩
    _ = kept config v m := (kept_eq_countP m).symm

theorem wellFormed_later (hw : w.WellFormed) (elapsed : ℕ) : (w.later elapsed).WellFormed :=
  ⟨hw.ids, hw.artifactIds, hw.idempotencyKeys, hw.storageKeys⟩

theorem passAfter_eq (hretention : 0 < config.orphanRetentionMs) (hw : w.WellFormed)
    (elapsed : ℕ) : passAfter platform config uuids w elapsed =
      (w.later elapsed).rewrite (passFate platform config (w.later elapsed)) := by
  have hlater := wellFormed_later hw elapsed
  rw [passAfter, evaluate_reconcileArtifacts hlater, pass_eq_passFate hretention hlater]

theorem wellFormed_passAfter (hretention : 0 < config.orphanRetentionMs) (hw : w.WellFormed)
    (elapsed : ℕ) : (passAfter platform config uuids w elapsed).WellFormed := by
  rw [passAfter_eq hretention hw]
  exact (wellFormed_later hw elapsed).rewrite (keeps_passFate _)

theorem wellFormed_passes (hretention : 0 < config.orphanRetentionMs) (hw : w.WellFormed)
    (elapsed : ℕ → ℕ) (n : ℕ) : (passes platform config uuids w elapsed n).WellFormed := by
  induction n with
  | zero => exact hw
  | succ n ih => exact wellFormed_passAfter hretention ih (elapsed n)

/-- A manifest that is past its retention stays so. -/
theorem Reclaimable.later (h : Reclaimable config w m) (elapsed : ℕ) :
    Reclaimable config (w.later elapsed) m := by
  refine ⟨⟨h.1.1, ?_⟩, h.2⟩
  have hold := h.1.2
  unfold ArtifactManifest.Older cutoff at hold ⊢
  have hclock : ((w.later elapsed).clock : ℤ) = w.clock + elapsed := by
    rw [ArtifactWorld.later]
    push_cast
    rfl
  omega

theorem Removed.rewrite (h : Removed w m) {f : ArtifactManifest → Option ArtifactManifest}
    (hf : Keeps f) : Removed (w.rewrite f) m := by
  obtain ⟨hmanifest, hblob⟩ := h
  constructor
  · refine List.find?_eq_none.mpr fun m' hm' he => ?_
    obtain ⟨other, ho, hfo⟩ := ArtifactWorld.mem_rewrite.mp hm'
    rw [hf.artifactId hfo] at he
    exact List.find?_eq_none.mp hmanifest other ho he
  · unfold ArtifactWorld.rewrite
    dsimp only
    rw [hblob, ite_self]

/-- A pass removes a reclaimable manifest, or leaves it as it is. -/
theorem passAfter_reclaimable (hretention : 0 < config.orphanRetentionMs) (hw : w.WellFormed)
    (elapsed : ℕ) (hm : m ∈ w.manifests) (h : Reclaimable config w m) :
    (m ∈ readyBatch config (w.later elapsed) →
      Removed (passAfter platform config uuids w elapsed) m) ∧
    (m ∉ readyBatch config (w.later elapsed) →
      m ∈ (passAfter platform config uuids w elapsed).manifests ∧
        Reclaimable config (passAfter platform config uuids w elapsed) m) := by
  have hlater := wellFormed_later hw elapsed
  have hdue := h.later elapsed
  have hfate := (@passFate_of_lapsed _ _ platform config _ _) hlater hm hdue.1
  rw [passAfter_eq hretention hw]
  constructor
  · intro hb
    rw [if_pos ⟨hb, hdue.2⟩] at hfate
    exact (rewrite_outcome hlater (keeps_passFate _) hm).1 hfate
  · intro hb
    rw [if_neg fun hboth => hb hboth.1] at hfate
    exact ⟨ArtifactWorld.mem_rewrite.mpr ⟨m, hm, hfate⟩, hdue⟩

/-- Where something is left over of a batch that is not all referenced, a manifest goes. -/
theorem length_passAfter_lt (hretention : 0 < config.orphanRetentionMs) (hw : w.WellFormed)
    (elapsed : ℕ) (hm : m ∈ w.manifests) (h : Reclaimable config w m)
    (hroom : kept config (w.later elapsed) m < RECONCILER_BATCH_SIZE)
    (hleft : m ∉ readyBatch config (w.later elapsed)) :
    (passAfter platform config uuids w elapsed).manifests.length < w.manifests.length := by
  have hlater := wellFormed_later hw elapsed
  have hfree : ∃ r ∈ readyBatch config (w.later elapsed), ¬ w.Referenced r.artifactId := by
    by_contra hall
    push Not at hall
    exact absurd (kept_of_referenced hlater hm (h.later elapsed).1 hleft hall) hroom.not_ge
  obtain ⟨r, hr, href⟩ := hfree
  obtain ⟨hrm, hrdue⟩ := mem_scan hr
  have hfate := (@passFate_of_lapsed _ _ platform config _ _) hlater hrm (due_ready_iff.mp hrdue)
  rw [if_pos ⟨hr, href⟩] at hfate
  rw [passAfter_eq hretention hw]
  exact Listing.length_filterMap_lt hrm hfate

end Progress

section Whole

variable {platform : Platform N} {config : ArtifactConfig} {uuids : Uuids} {w v : ArtifactWorld}
  {m : ArtifactManifest} {elapsed : ℕ → ℕ}

theorem passes_add (n k : ℕ) : passes platform config uuids w elapsed (n + k) =
    passes platform config uuids (passes platform config uuids w elapsed n)
      (fun i => elapsed (n + i)) k := by
  induction k with
  | zero => rfl
  | succ k ih =>
    rw [← Nat.add_assoc, passes, ih]
    rfl

/-- A removed manifest does not come back. -/
theorem removed_passes (hretention : 0 < config.orphanRetentionMs) (hw : w.WellFormed)
    (h : Removed w m) (n : ℕ) : Removed (passes platform config uuids w elapsed n) m := by
  induction n with
  | zero => exact h
  | succ n ih =>
    have hlater : Removed ((passes platform config uuids w elapsed n).later (elapsed n)) m := ih
    rw [passes, passAfter_eq hretention (wellFormed_passes hretention hw elapsed n)]
    exact hlater.rewrite (keeps_passFate _)

/-- As long as there is room for it, a reclaimable manifest goes: each pass that does not reach it
makes the list shorter. -/
theorem reclaimed_of_room (hretention : 0 < config.orphanRetentionMs) (hw : w.WellFormed)
    (hm : m ∈ w.manifests) (h : Reclaimable config w m)
    (hroom : ∀ n, kept config ((passes platform config uuids w elapsed n).later (elapsed n)) m <
      RECONCILER_BATCH_SIZE) :
    ∃ n ≤ w.manifests.length, Removed (passes platform config uuids w elapsed n) m := by
  induction hlength : w.manifests.length using Nat.strong_induction_on generalizing w elapsed with
  | _ length ih =>
    subst hlength
    obtain ⟨hreached, hleft⟩ := (@passAfter_reclaimable _ _ platform config uuids w m) hretention hw
      (elapsed 0) hm h
    have hpos : 0 < w.manifests.length := List.length_pos_of_mem hm
    by_cases hb : m ∈ readyBatch config (w.later (elapsed 0))
    · exact ⟨1, hpos, hreached hb⟩
    · obtain ⟨hm', h'⟩ := hleft hb
      have hlt := (@length_passAfter_lt _ _ platform config uuids w m) hretention hw (elapsed 0) hm h
        (hroom 0) hb
      have hroom' : ∀ n, kept config ((passes platform config uuids
          (passAfter platform config uuids w (elapsed 0)) (fun i => elapsed (1 + i)) n).later
            (elapsed (1 + n))) m < RECONCILER_BATCH_SIZE := by
        intro n
        have hlast := hroom (1 + n)
        rwa [passes_add] at hlast
      obtain ⟨n, hn, hremoved⟩ := ih _ hlt (wellFormed_passAfter hretention hw _) hm' h' hroom' rfl
      refine ⟨1 + n, by omega, ?_⟩
      rw [passes_add]
      exact hremoved

/-- What is kept is still kept at a later time. -/
theorem kept_le_later (elapsed : ℕ) : kept config w m ≤ kept config (w.later elapsed) m := by
  rw [kept_eq_countP, kept_eq_countP]
  refine List.countP_mono_left fun r _ hr => ?_
  simp only [Bool.and_eq_true, decide_eq_true_eq] at hr ⊢
  refine ⟨hr.1, ⟨hr.2.1.1, ?_⟩, hr.2.2⟩
  have hold := hr.2.1.2
  unfold ArtifactManifest.Older cutoff at hold ⊢
  have hclock : ((w.later elapsed).clock : ℤ) = w.clock + elapsed := by
    rw [ArtifactWorld.later]
    push_cast
    rfl
  omega

/-- A pass leaves alone what it keeps. -/
theorem kept_passAfter (hretention : 0 < config.orphanRetentionMs) (hw : w.WellFormed)
    (elapsed : ℕ) : kept config (passAfter platform config uuids w elapsed) m =
      kept config (w.later elapsed) m := by
  have hlater := wellFormed_later hw elapsed
  have hsame : ((w.later elapsed).rewrite (passFate platform config (w.later elapsed))).manifests.filter
      (fun r => decide (Lapsed config (w.later elapsed) r ∧ w.Referenced r.artifactId)) =
      (w.later elapsed).manifests.filter
        fun r => decide (Lapsed config (w.later elapsed) r ∧ w.Referenced r.artifactId) := by
    refine Listing.filter_filterMap (fun r hr hdue => ?_) fun r hr r' he hdue => ?_
    · obtain ⟨hlapsed, href⟩ := of_decide_eq_true hdue
      rw [passFate_of_lapsed hlater hr hlapsed, if_neg fun hboth => hboth.2 href]
    · obtain ⟨hlapsed, -⟩ := of_decide_eq_true hdue
      obtain ⟨middle, hmiddle, hlast⟩ := Option.bind_eq_some_iff.mp he
      have hstill : r' = middle := by
        unfold among retired at hlast
        split_ifs at hlast
        all_goals
          cases hlast
          rfl
      subst hstill
      exact eq_of_prepared hretention hmiddle hlapsed
  rw [passAfter_eq hretention hw, kept]
  exact congrArg (List.countP _) hsame

/-- Behind a full batch of kept manifests nothing is ever reclaimed. -/
theorem stuck_of_crowded (hretention : 0 < config.orphanRetentionMs) (hw : w.WellFormed)
    (hm : m ∈ w.manifests) (h : Reclaimable config w m)
    (hcrowded : RECONCILER_BATCH_SIZE ≤ kept config (w.later (elapsed 0)) m) (n : ℕ) :
    m ∈ (passes platform config uuids w elapsed n).manifests := by
  have hinvariant : ∀ n, m ∈ (passes platform config uuids w elapsed n).manifests ∧
      Reclaimable config (passes platform config uuids w elapsed n) m ∧
      RECONCILER_BATCH_SIZE ≤
        kept config ((passes platform config uuids w elapsed n).later (elapsed n)) m := by
    intro n
    induction n with
    | zero => exact ⟨hm, h, hcrowded⟩
    | succ n ih =>
      obtain ⟨hmn, hn, hkept⟩ := ih
      have hwn := (@wellFormed_passes _ _ platform config uuids w) hretention hw elapsed n
      have hlater := wellFormed_later hwn (elapsed n)
      have hout : m ∉ readyBatch config ((passes platform config uuids w elapsed n).later
          (elapsed n)) := by
        intro hb
        have hcount := (mem_readyBatch_iff hlater hmn (hn.later (elapsed n)).1).mp hb
        have hle : kept config ((passes platform config uuids w elapsed n).later (elapsed n)) m ≤
            (((passes platform config uuids w elapsed n).later (elapsed n)).manifests.filter
              fun r => decide (Lapsed config ((passes platform config uuids w elapsed n).later
                (elapsed n)) r)).countP fun r => r._id < m._id := by
          rw [kept_eq_countP, List.countP_filter]
          refine List.countP_mono_left fun r _ hr => ?_
          simp only [Bool.and_eq_true, decide_eq_true_eq] at hr ⊢
          exact ⟨hr.1, hr.2.1⟩
        omega
      obtain ⟨-, hleft⟩ := (@passAfter_reclaimable _ _ platform config uuids _ m) hretention hwn
        (elapsed n) hmn hn
      obtain ⟨hm', h'⟩ := hleft hout
      refine ⟨hm', h', ?_⟩
      have hsame := (@kept_passAfter _ _ platform config uuids _ m) hretention hwn (elapsed n)
      have hmore := (@kept_le_later config (passAfter platform config uuids
        (passes platform config uuids w elapsed n) (elapsed n)) m) (elapsed (n + 1))
      rw [passes]
      omega
  exact (hinvariant n).1

theorem length_passes_le (hretention : 0 < config.orphanRetentionMs) (hw : w.WellFormed) (n : ℕ) :
    (passes platform config uuids w elapsed n).manifests.length ≤ w.manifests.length := by
  induction n with
  | zero => exact le_rfl
  | succ n ih =>
    rw [passes, passAfter_eq hretention (wellFormed_passes hretention hw elapsed n)]
    exact (length_rewrite_le _).trans ih

/-- Fewer manifests than a batch takes leave room for all of them. -/
theorem room_of_few (hretention : 0 < config.orphanRetentionMs) (hw : w.WellFormed)
    (hfew : w.manifests.length < RECONCILER_BATCH_SIZE) (n : ℕ) :
    kept config ((passes platform config uuids w elapsed n).later (elapsed n)) m <
      RECONCILER_BATCH_SIZE := by
  rw [kept_eq_countP]
  exact (List.countP_le_length.trans (length_passes_le hretention hw n)).trans_lt hfew

/-- Retention deletes an unreferenced artifact, after at most as many passes as there are manifests,
if a batch has room for it each time; where the batch is full of referenced ones, it never does. -/
theorem retention_progress (hretention : 0 < config.orphanRetentionMs) (hw : w.WellFormed)
    (hm : m ∈ w.manifests) (h : Reclaimable config w m) :
    ((∀ n, kept config ((passes platform config uuids w elapsed n).later (elapsed n)) m <
        RECONCILER_BATCH_SIZE) →
      ∀ n ≥ w.manifests.length, Removed (passes platform config uuids w elapsed n) m) ∧
    (RECONCILER_BATCH_SIZE ≤ kept config (w.later (elapsed 0)) m →
      ∀ n, m ∈ (passes platform config uuids w elapsed n).manifests) := by
  refine ⟨fun hroom n hn => ?_, fun hcrowded n => stuck_of_crowded hretention hw hm h hcrowded n⟩
  obtain ⟨first, hfirst, hremoved⟩ := reclaimed_of_room hretention hw hm h hroom
  obtain ⟨k, rfl⟩ := Nat.exists_eq_add_of_le (hfirst.trans hn)
  rw [passes_add]
  exact removed_passes hretention (wellFormed_passes hretention hw elapsed first) hremoved k

end Whole

section Sample

theorem retention_progress_sample : Removed (passes samplePlatform sampleConfig countedUuids
    (sampleWorld.later 200) (fun _ => 0) 1) sampleManifest := by
  have hw := wellFormed_later sampleWorld_wellFormed 200
  have hdue : Reclaimable sampleConfig (sampleWorld.later 200) sampleManifest := by decide
  have hroom := (@room_of_few _ _ samplePlatform sampleConfig countedUuids _ sampleManifest
    fun _ => 0) (by decide) hw (by decide)
  exact (retention_progress (by decide) hw (List.mem_singleton.mpr rfl) hdue).1 hroom 1 le_rfl

end Sample

end AppBuilder.Artifacts
