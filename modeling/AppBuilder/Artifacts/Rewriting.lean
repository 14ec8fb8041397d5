import AppBuilder.Artifacts.ManifestLaws

/-! Worlds in which some manifests have been changed, or removed with their blobs. -/
namespace AppBuilder.Artifacts
open Agent Async Encoding

variable {w : ArtifactWorld} {f g : ArtifactManifest → Option ArtifactManifest}

/-- What never changes of a manifest. -/
def ArtifactManifest.record (manifest : ArtifactManifest) : ArtifactManifest :=
  { manifest with state := .writing, errorCode := none, updatedAt := 0 }

/-- Manifests keep their records. -/
def Keeps (f : ArtifactManifest → Option ArtifactManifest) : Prop :=
  ∀ m m', f m = some m' → m'.record = m.record

/-- Only this manifest is changed. -/
def only (artifactId : Text) (f : ArtifactManifest → Option ArtifactManifest)
    (m : ArtifactManifest) : Option ArtifactManifest :=
  if m.artifactId = artifactId then f m else some m

/-- Only these manifests are changed. -/
def among (artifactIds : List Text) (f : ArtifactManifest → Option ArtifactManifest)
    (m : ArtifactManifest) : Option ArtifactManifest :=
  if m.artifactId ∈ artifactIds then f m else some m

namespace Keeps

variable {m m' : ArtifactManifest}

theorem id (hf : Keeps f) (h : f m = some m') : m'._id = m._id := by
  have hrecord := congrArg ArtifactManifest._id (hf m m' h)
  exact hrecord

theorem artifactId (hf : Keeps f) (h : f m = some m') : m'.artifactId = m.artifactId := by
  have hrecord := congrArg (fun m : ArtifactManifest => m.artifactId) (hf m m' h)
  exact hrecord

theorem idempotencyKey (hf : Keeps f) (h : f m = some m') :
    m'.idempotencyKey = m.idempotencyKey := by
  have hrecord := congrArg (fun m : ArtifactManifest => m.idempotencyKey) (hf m m' h)
  exact hrecord

theorem storageKey (hf : Keeps f) (h : f m = some m') : m'.storageKey = m.storageKey := by
  have hrecord := congrArg (fun m : ArtifactManifest => m.storageKey) (hf m m' h)
  exact hrecord

theorem only (hf : Keeps f) (artifactId : Text) : Keeps (only artifactId f) := by
  intro m m' h
  unfold Artifacts.only at h
  split_ifs at h
  · exact hf m m' h
  · cases h
    rfl

theorem among (hf : Keeps f) (artifactIds : List Text) : Keeps (among artifactIds f) := by
  intro m m' h
  unfold Artifacts.among at h
  split_ifs at h
  · exact hf m m' h
  · cases h
    rfl

theorem bind (hf : Keeps f) (hg : Keeps g) : Keeps fun m => (f m).bind g := by
  intro m m' h
  obtain ⟨middle, hm, hm'⟩ := Option.bind_eq_some_iff.mp h
  exact (hg middle m' hm').trans (hf m middle hm)

theorem apply (change : ManifestChange) (now : Time) : Keeps fun m => some (change.apply now m) := by
  intro m m' h
  cases h
  cases change <;> rfl

end Keeps

namespace ArtifactWorld

/-- The manifests that `f` drops are gone, and so are their blobs. -/
def rewrite (w : ArtifactWorld) (f : ArtifactManifest → Option ArtifactManifest) : ArtifactWorld :=
  { w with
    manifests := w.manifests.filterMap f
    blobs := fun key =>
      if w.manifests.any fun m => m.storageKey == key && (f m).isNone then none else w.blobs key }

theorem rewrite_congr (h : ∀ m ∈ w.manifests, f m = g m) : w.rewrite f = w.rewrite g := by
  have hany : ∀ key, (w.manifests.any fun m => m.storageKey == key && (f m).isNone) =
      w.manifests.any fun m => m.storageKey == key && (g m).isNone := by
    intro key
    rw [Bool.eq_iff_iff, List.any_eq_true, List.any_eq_true]
    refine exists_congr fun m => and_congr_right fun hm => ?_
    rw [h m hm]
  unfold rewrite
  rw [List.filterMap_congr h]
  simp only [hany]

theorem rewrite_some (w : ArtifactWorld) : w.rewrite some = w := by
  unfold rewrite
  simp

theorem rewrite_rewrite (hf : Keeps f) (g : ArtifactManifest → Option ArtifactManifest) :
    (w.rewrite f).rewrite g = w.rewrite fun m => (f m).bind g := by
  have hblobs : ∀ key,
      (if (w.manifests.filterMap f).any fun m => m.storageKey == key && (g m).isNone then none
        else if w.manifests.any fun m => m.storageKey == key && (f m).isNone then none
        else w.blobs key) =
      if w.manifests.any fun m => m.storageKey == key && ((f m).bind g).isNone then none
        else w.blobs key := by
    intro key
    have hsplit : (w.manifests.any fun m => m.storageKey == key && ((f m).bind g).isNone) =
        ((w.manifests.filterMap f).any (fun m => m.storageKey == key && (g m).isNone) ||
          w.manifests.any fun m => m.storageKey == key && (f m).isNone) := by
      rw [Bool.eq_iff_iff, Bool.or_eq_true, List.any_eq_true, List.any_eq_true, List.any_eq_true]
      simp only [Bool.and_eq_true, beq_iff_eq, Option.isNone_iff_eq_none, List.mem_filterMap]
      constructor
      · rintro ⟨m, hm, hkey, hnone⟩
        cases hfm : f m with
        | none => exact .inr ⟨m, hm, hkey, hfm⟩
        | some m' =>
          rw [hfm] at hnone
          exact .inl ⟨m', ⟨m, hm, hfm⟩, (hf.storageKey hfm).trans hkey, hnone⟩
      · rintro (⟨m', ⟨m, hm, hfm⟩, hkey, hnone⟩ | ⟨m, hm, hkey, hnone⟩)
        · refine ⟨m, hm, (hf.storageKey hfm).symm.trans hkey, ?_⟩
          rw [hfm]
          exact hnone
        · refine ⟨m, hm, hkey, ?_⟩
          rw [hnone]
          rfl
    rw [hsplit]
    cases (w.manifests.filterMap f).any fun m => m.storageKey == key && (g m).isNone <;> simp
  unfold rewrite
  dsimp only
  rw [List.filterMap_filterMap, funext hblobs]

theorem mem_rewrite {m' : ArtifactManifest} :
    m' ∈ (w.rewrite f).manifests ↔ ∃ m ∈ w.manifests, f m = some m' := List.mem_filterMap

theorem map_filterMap_sublist {α : Type} {key : ArtifactManifest → α}
    (hkey : ∀ m m', f m = some m' → key m' = key m) (ms : List ArtifactManifest) :
    ((ms.filterMap f).map key).Sublist (ms.map key) := by
  induction ms with
  | nil => exact List.Sublist.refl _
  | cons m ms ih =>
    cases hf : f m with
    | none =>
      rw [List.filterMap_cons_none hf, List.map_cons]
      exact ih.cons _
    | some m' =>
      rw [List.filterMap_cons_some hf, List.map_cons, List.map_cons, hkey m m' hf]
      exact ih.cons_cons _

theorem WellFormed.rewrite (hw : w.WellFormed) (hf : Keeps f) : (w.rewrite f).WellFormed where
  ids := (map_filterMap_sublist (fun _ _ => hf.id) _).nodup hw.ids
  artifactIds := (map_filterMap_sublist (fun _ _ => hf.artifactId) _).nodup hw.artifactIds
  idempotencyKeys :=
    (map_filterMap_sublist (fun _ _ => hf.idempotencyKey) _).nodup hw.idempotencyKeys
  storageKeys m' hm' := by
    obtain ⟨m, hm, hfm⟩ := mem_rewrite.mp hm'
    rw [hf.storageKey hfm, hf.artifactId hfm]
    exact hw.storageKeys m hm

/-- Where nothing is dropped, the blobs stay. -/
theorem blobs_rewrite_of_some (h : ∀ m ∈ w.manifests, f m ≠ none) :
    (w.rewrite f).blobs = w.blobs := by
  funext key
  refine if_neg ?_
  rw [List.any_eq_true]
  rintro ⟨m, hm, hboth⟩
  rw [Bool.and_eq_true, Option.isNone_iff_eq_none] at hboth
  exact h m hm hboth.2

/-- What became of a manifest, and of its blob. -/
theorem manifest?_rewrite (hw : w.WellFormed) (hf : Keeps f) {m : ArtifactManifest}
    (hm : m ∈ w.manifests) : (w.rewrite f).manifest? m.artifactId = f m := by
  cases hfm : f m with
  | some m' =>
    have hmem : m' ∈ (w.rewrite f).manifests := mem_rewrite.mpr ⟨m, hm, hfm⟩
    have hfound := (hw.rewrite hf).manifest? hmem
    rwa [hf.artifactId hfm] at hfound
  | none =>
    refine List.find?_eq_none.mpr fun m' hm' he => ?_
    obtain ⟨other, ho, hfo⟩ := mem_rewrite.mp hm'
    have hid : other.artifactId = m.artifactId := by
      rw [← hf.artifactId hfo]
      simpa using he
    cases hw.eq_of_artifactId ho hm hid
    cases hfm.symm.trans hfo

theorem blobs_rewrite (hw : w.WellFormed) {m : ArtifactManifest} (hm : m ∈ w.manifests) :
    (w.rewrite f).blobs m.storageKey = if (f m).isNone then none else w.blobs m.storageKey := by
  have hany : (w.manifests.any fun other =>
      other.storageKey == m.storageKey && (f other).isNone) = (f m).isNone := by
    rw [Bool.eq_iff_iff, List.any_eq_true]
    constructor
    · rintro ⟨other, ho, hboth⟩
      rw [Bool.and_eq_true, beq_iff_eq, hw.storageKeys other ho, hw.storageKeys m hm] at hboth
      rw [← hw.eq_of_artifactId ho hm (storageKeyFor_injective hboth.1)]
      exact hboth.2
    · intro hnone
      exact ⟨m, hm, by rw [BEq.rfl, Bool.true_and, hnone]⟩
  unfold rewrite
  dsimp only
  rw [hany]

/-- A blob under no dropped manifest stays. -/
theorem blobs_rewrite_of_not_dropped {key : Text}
    (h : ∀ m ∈ w.manifests, m.storageKey = key → f m ≠ none) :
    (w.rewrite f).blobs key = w.blobs key := by
  refine if_neg ?_
  rw [List.any_eq_true]
  rintro ⟨m, hm, hboth⟩
  rw [Bool.and_eq_true, beq_iff_eq, Option.isNone_iff_eq_none] at hboth
  exact h m hm hboth.1 hboth.2

/-- An update that finds its manifest. -/
theorem updateOne_eq_rewrite (hw : w.WellFormed) {m : ArtifactManifest} (hm : m ∈ w.manifests)
    (change : ManifestChange) : w.updateOne m.artifactId m.state change =
      w.rewrite (only m.artifactId fun m => some (change.apply w.clock m)) := by
  have hmap : ∀ other ∈ w.manifests,
      only m.artifactId (fun m => some (change.apply w.clock m)) other =
        some (if other.artifactId = m.artifactId ∧ other.state = m.state then
          change.apply w.clock other else other) := by
    intro other ho
    unfold only
    by_cases hid : other.artifactId = m.artifactId
    · cases hw.eq_of_artifactId ho hm hid
      rw [if_pos rfl, if_pos ⟨rfl, rfl⟩]
    · rw [if_neg hid, if_neg fun h => hid h.1]
  rw [rewrite_congr hmap]
  have hblobs := blobs_rewrite_of_some (w := w) (f := fun other => some
    (if other.artifactId = m.artifactId ∧ other.state = m.state then change.apply w.clock other
      else other)) fun _ _ => Option.some_ne_none _
  unfold rewrite at hblobs ⊢
  dsimp only at hblobs
  rw [hblobs, List.filterMap_eq_map']
  rfl

/-- A blob is deleted, and then its manifest. -/
theorem deleteOne_eq_rewrite (hw : w.WellFormed) {m : ArtifactManifest} (hm : m ∈ w.manifests) :
    (w.setBlob m.storageKey none).deleteOne m.artifactId m.state =
      w.rewrite (only m.artifactId fun _ => none) := by
  have hfilter : w.manifests.filterMap (only m.artifactId fun _ => none) =
      w.manifests.filter fun other =>
        ¬ (other.artifactId = m.artifactId ∧ other.state = m.state) := by
    rw [← List.filterMap_eq_filter]
    refine List.filterMap_congr fun other ho => ?_
    unfold only
    by_cases hid : other.artifactId = m.artifactId
    · cases hw.eq_of_artifactId ho hm hid
      rw [if_pos rfl]
      simp [Option.guard]
    · rw [if_neg hid]
      simp [Option.guard, hid]
  have hblobs : Function.update w.blobs m.storageKey none =
      (w.rewrite (only m.artifactId fun _ => none)).blobs := by
    funext key
    by_cases hkey : key = m.storageKey
    · subst hkey
      rw [Function.update_self, blobs_rewrite hw hm, only, if_pos rfl]
      rfl
    · rw [Function.update_of_ne hkey, blobs_rewrite_of_not_dropped]
      intro other ho hsame hnone
      unfold only at hnone
      split_ifs at hnone with hid
      cases hw.eq_of_artifactId ho hm hid
      exact hkey hsame.symm
  unfold deleteOne setBlob
  dsimp only
  rw [← hfilter, hblobs]
  rfl

end ArtifactWorld

end AppBuilder.Artifacts
