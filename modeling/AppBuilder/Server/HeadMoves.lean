import AppBuilder.Server.FinalStatus
import Mathlib.Data.List.Nodup

/-! The heads of branches go up version by version, and no run moves one twice. -/
namespace AppBuilder.Server
open Agent Async Store Branches Routes

section Advance

variable {l l' : List HeadMove} {b b' b'' : ProjectBranch}

def movesOf (branchId : ObjectId) (moves : List HeadMove) : List HeadMove :=
  moves.filter (·.branchId == branchId)

/-- What the moves make of the head of a branch. -/
structure Advances (moves : List HeadMove) (b b' : ProjectBranch) : Prop where
  versions : moves.map (·.headVersion) = List.range' (b.headVersion + 1) moves.length
  version : b'.headVersion = b.headVersion + moves.length
  head : b'.headSnapshotId = (moves.getLast?.map (·.snapshotId)).or b.headSnapshotId

theorem Advances.refl (b : ProjectBranch) : Advances [] b b := ⟨rfl, rfl, rfl⟩

theorem Advances.trans (h : Advances l b b') (h' : Advances l' b' b'') :
    Advances (l ++ l') b b'' := by
  refine ⟨?_, ?_, ?_⟩
  · rw [List.map_append, List.length_append, h.versions, h'.versions, h.version, ← List.range'_append_1]
    congr 2
    omega
  · rw [h'.version, h.version, List.length_append, Nat.add_assoc]
  · rw [h'.head, h.head, List.getLast?_append, Option.map_or, Option.or_assoc]

theorem Advances.le (h : Advances l b b') : b.headVersion ≤ b'.headVersion :=
  h.version ▸ Nat.le_add_right ..

theorem Advances.lt_of_mem (h : Advances l b b') {m : HeadMove} (hm : m ∈ l) :
    b.headVersion < m.headVersion ∧ m.headVersion ≤ b'.headVersion := by
  have hmem : m.headVersion ∈ l.map (·.headVersion) := List.mem_map.mpr ⟨m, hm, rfl⟩
  rw [h.versions, List.mem_range'_1] at hmem
  have hversion := h.version
  omega

/-- All heads advance by the moves that are recorded in the meantime. -/
def HeadsAdvance (w w' : World) : Prop :=
  ∃ new, w'.headMoves = w.headMoves ++ new ∧ ∀ i b, w.branch? i = some b →
    ∃ b', w'.branch? i = some b' ∧ Advances (movesOf i new) b b'

theorem HeadsAdvance.refl (w : World) : HeadsAdvance w w :=
  ⟨[], (List.append_nil _).symm, fun _ b hb => ⟨b, hb, .refl b⟩⟩

theorem HeadsAdvance.trans {w₁ w₂ w₃ : World} (h : HeadsAdvance w₁ w₂) (h' : HeadsAdvance w₂ w₃) :
    HeadsAdvance w₁ w₃ := by
  obtain ⟨new, hnew, hb⟩ := h
  obtain ⟨new', hnew', hb'⟩ := h'
  refine ⟨new ++ new', by rw [hnew', hnew, List.append_assoc], fun i b hi => ?_⟩
  obtain ⟨b', hi', ha⟩ := hb i b hi
  obtain ⟨b'', hi'', ha'⟩ := hb' i b' hi'
  refine ⟨b'', hi'', ?_⟩
  rw [movesOf, List.filter_append]
  exact ha.trans ha'

theorem HeadsAdvance.same {w w' : World} (hb : ∀ i b, w.branch? i = some b → w'.branch? i = some b)
    (hm : w'.headMoves = w.headMoves) : HeadsAdvance w w' :=
  ⟨[], by rw [hm, List.append_nil], fun i b hi => ⟨b, hb i b hi, .refl b⟩⟩

theorem HeadsAdvance.branch {w w' : World} (h : HeadsAdvance w w') {i : ObjectId} {v : ℕ}
    (hv : ∃ b, w.branch? i = some b ∧ v ≤ b.headVersion) :
    ∃ b, w'.branch? i = some b ∧ v ≤ b.headVersion := by
  obtain ⟨new, -, hb⟩ := h
  obtain ⟨b, hi, hle⟩ := hv
  obtain ⟨b', hi', ha⟩ := hb i b hi
  exact ⟨b', hi', Nat.le_trans hle ha.le⟩

theorem HeadsAdvance.lt_of_mem {w w' : World} (h : HeadsAdvance w w') {m : HeadMove} {v : ℕ}
    (hm : m ∈ w'.headMoves) (hold : m ∉ w.headMoves)
    (hv : ∃ b, w.branch? m.branchId = some b ∧ v ≤ b.headVersion) : v < m.headVersion := by
  obtain ⟨new, hnew, hb⟩ := h
  obtain ⟨b, hi, hle⟩ := hv
  obtain ⟨b', -, ha⟩ := hb _ b hi
  rw [hnew] at hm
  have hin : m ∈ movesOf m.branchId new :=
    List.mem_filter.mpr ⟨(List.mem_append.mp hm).resolve_left hold, BEq.rfl⟩
  exact Nat.lt_of_le_of_lt hle (ha.lt_of_mem hin).1

/-- One step moves at most one head, by one version. -/
theorem Change.headsAdvance {φ : Phase} {t : ThreadId} {op : Op} {w w' : World}
    (h : Change φ t w op w') : HeadsAdvance w w' := by
  cases h with
  | unchanged h =>
    exact .same (fun i b hi => by rwa [World.branch?, h.branches]) h.headMoves
  | @branchInserted fields hp hnone =>
    refine .same (fun i b hi => ?_) rfl
    rw [World.branch?_insertBranch, hi]
    rfl
  | @headMoved input branch hp hb ha hv =>
    refine ⟨[⟨t, φ.call.run?, input.branchId, input.expectedHeadVersion + 1, input.snapshotId⟩],
      rfl, fun i b hi => ?_⟩
    rw [World.branch?_moveHead, hi]
    by_cases he : i = input.branchId
    · subst he
      cases Option.some.inj (hb.symm.trans hi)
      refine ⟨_, if_pos rfl, ?_⟩
      have hone : movesOf input.branchId
          [⟨t, φ.call.run?, input.branchId, input.expectedHeadVersion + 1, input.snapshotId⟩] =
          [⟨t, φ.call.run?, input.branchId, input.expectedHeadVersion + 1, input.snapshotId⟩] := by
        simp [movesOf]
      rw [hone]
      exact ⟨by simp [hv], rfl, rfl⟩
    · refine ⟨b, if_neg he, ?_⟩
      have hnone : movesOf i
          [⟨t, φ.call.run?, input.branchId, input.expectedHeadVersion + 1, input.snapshotId⟩] = [] := by
        simp [movesOf, Ne.symm he]
      rw [hnone]
      exact .refl b
  | _ => exact .same (fun _ _ hi => hi) rfl

end Advance

section Law

/-- The branch has been at the version. -/
def Reached (w : World) (branchId : ObjectId) (version : ℕ) : Prop :=
  ∃ b, w.branch? branchId = some b ∧ version ≤ b.headVersion

/-- A base version of the run: the branch has been there, and the run has not moved the head
from before it. -/
structure BaseOf (w : World) (r branchId : ObjectId) (version : ℕ) : Prop where
  reached : Reached w branchId version
  before : ∀ m ∈ w.headMoves, m.run = some r → version < m.headVersion

/-- What holds of the heads at every moment. -/
structure HeadLaw (w : World) : Prop where
  branchIds : ∀ b ∈ w.branches, b._id < w.nextId
  unique : (w.branches.map (·._id)).Nodup
  moves : ∀ m ∈ w.headMoves, Reached w m.branchId m.headVersion
  bases : ∀ r run b v, w.run? r = some run → run.branchId = some b → run.baseHeadVersion = some v →
    BaseOf w r b v
  once : (w.headMoves.filterMap (·.run)).Nodup

/-- What a call knows of the heads. -/
structure HeadKnows (w : World) (φ : Phase) : Prop where
  branch : ∀ branch, φ.branch = some branch → Reached w branch._id branch.headVersion
  base : ∀ ref b v, φ.run = some ref → ref.branchId = some b → ref.baseHeadVersion = some v →
    BaseOf w ref.id b v

variable {w w' : World} {φ : Phase} {t : ThreadId} {op : Op}

theorem Knows.branchId (hk : Knows w φ) {ref : RunRef} (href : φ.run = some ref) :
    ∃ run, w.run? ref.id = some run ∧ run.branchId = ref.branchId := by
  obtain ⟨run, hrun, he⟩ := hk.run ref href
  exact ⟨run, hrun, congrArg RunRef.branchId he⟩

/-- A move of the run that is new lies above every version that the branch has reached. -/
theorem BaseOf.grow {r b : ObjectId} {v : ℕ} (h : BaseOf w r b v) (hg : HeadsAdvance w w')
    (hw : Lawful w') (hrun : ∃ run, w'.run? r = some run ∧ run.branchId = some b) :
    BaseOf w' r b v := by
  refine ⟨hg.branch h.reached, fun m hm hmr => ?_⟩
  by_cases hold : m ∈ w.headMoves
  · exact h.before m hold hmr
  · obtain ⟨-, -, hbranch⟩ := hw.headMoves m hm r hmr
    obtain ⟨run, hfound, hb⟩ := hrun
    rw [hfound, Option.bind_some, hb] at hbranch
    cases Option.some.inj hbranch
    exact hg.lt_of_mem hm hold h.reached

theorem HeadKnows.grow (h : HeadKnows w φ) (hg : HeadsAdvance w w') (hw : Lawful w')
    (hk : Knows w' φ) : HeadKnows w' φ := by
  refine ⟨fun branch hb => hg.branch (h.branch branch hb), fun ref b v href hb hv => ?_⟩
  obtain ⟨run, hrun, hbranch⟩ := hk.branchId href
  exact (h.base ref b v href hb hv).grow hg hw ⟨run, hrun, hbranch.trans hb⟩

/-- A run that is not persisted has moved no head. -/
theorem BaseOf.of_unpersisted (hw : Lawful w) {r b : ObjectId} {v : ℕ} (hp : ¬ Persisted w r)
    (h : Reached w b v) : BaseOf w r b v :=
  ⟨h, fun m hm hmr => absurd (hw.headMoves m hm r hmr).1 hp⟩

theorem reached_of_branch? {i : ObjectId} {b : ProjectBranch} (h : w.branch? i = some b) :
    Reached w b._id b.headVersion := by
  have hid : b._id = i := docId_of_findById h
  exact ⟨b, hid ▸ h, Nat.le_refl _⟩

/-- A run that moves the head has not moved it before. -/
theorem HeadLaw.not_moved (h : HeadLaw w) (hw : Lawful w) (hk : Knows w φ) (hh : HeadKnows w φ)
    {ref : RunRef} {input : SetBranchHead} (href : φ.run = some ref)
    (hb : ref.branchId = some input.branchId)
    (hv : ref.baseHeadVersion = some input.expectedHeadVersion) {branch : ProjectBranch}
    (hbranch : w.branch? input.branchId = some branch)
    (hversion : branch.headVersion = input.expectedHeadVersion) :
    ref.id ∉ w.headMoves.filterMap (·.run) := by
  intro hmem
  obtain ⟨m, hm, hmr⟩ := List.mem_filterMap.mp hmem
  have hlt := (hh.base ref _ _ href hb hv).before m hm hmr
  obtain ⟨-, -, hmoved⟩ := hw.headMoves m hm ref.id hmr
  obtain ⟨run, hrun, hrb⟩ := hk.branchId href
  rw [hrun, Option.bind_some, hrb, hb] at hmoved
  obtain ⟨b, hfound, hle⟩ := h.moves m hm
  rw [← Option.some.inj hmoved, hbranch] at hfound
  cases Option.some.inj hfound
  omega

/-- An update gives no base but one that its call has read. -/
theorem Update.base {r : ObjectId} {filter : StatusFilter} {patch : RunPatch}
    (hu : Update φ r filter patch) : patch.baseHeadVersion = none ∨
      ∃ ref branch, φ.run = some ref ∧ φ.branch = some branch ∧ ref.branchId = some branch._id ∧
        filter = .equals .waitingForCapacity ∧ patch.baseHeadVersion = some branch.headVersion := by
  cases hu with
  | @rebase run branch hrun hbranch hid => exact .inr ⟨run, branch, hrun, hbranch, hid, rfl, rfl⟩
  | work hs ht hstatus hbase => exact .inl hbase
  | complete hp houtcome hstatus hbase => exact .inl hbase
  | orphan hp hstatus hbase => exact .inl hbase
  | failGeneration hstatus hbase => exact .inl hbase
  | failRetry hstatus hbase => exact .inl hbase
  | _ => exact .inl rfl

end Law

section Steps

variable {w w' : World} {φ : Phase} {t : ThreadId} {op : Op}

/-- It is enough to look at what is new. -/
private theorem HeadLaw.grow (h : HeadLaw w) (hg : HeadsAdvance w w') (hw : Lawful w')
    (branchIds : ∀ b ∈ w'.branches, b._id < w'.nextId)
    (unique : (w'.branches.map (·._id)).Nodup)
    (moves : ∀ m ∈ w'.headMoves, m ∈ w.headMoves ∨ Reached w' m.branchId m.headVersion)
    (bases : ∀ r run b v, w'.run? r = some run → run.branchId = some b →
      run.baseHeadVersion = some v → (∃ run, w.run? r = some run ∧ run.branchId = some b ∧
        run.baseHeadVersion = some v) ∨ BaseOf w' r b v)
    (once : (w'.headMoves.filterMap (·.run)).Nodup) : HeadLaw w' where
  branchIds := branchIds
  unique := unique
  moves m hm := (moves m hm).elim (fun hm => hg.branch (h.moves m hm)) id
  bases r run b v hrun hb hv := by
    rcases bases r run b v hrun hb hv with ⟨before, hbefore, hb', hv'⟩ | hbase
    · exact (h.bases r before b v hbefore hb' hv').grow hg hw ⟨run, hrun, hb⟩
    · exact hbase
  once := once

/-- The branch and the base of a run after an update. -/
private theorem patched {r r' : ObjectId} {patch : RunPatch} {run' : AgentRun} {b : ObjectId}
    {v : ℕ} (h : (w.patchRun t r patch).run? r' = some run') (hb : run'.branchId = some b)
    (hv : run'.baseHeadVersion = some v) :
    (∃ run, w.run? r' = some run ∧ run.branchId = some b ∧ run.baseHeadVersion = some v) ∨
      r' = r ∧ patch.baseHeadVersion = some v ∧
        ∃ run, w.run? r = some run ∧ run.branchId = some b := by
  rw [World.run?_patchRun] at h
  split_ifs at h with he
  · subst he
    obtain ⟨run, hrun, rfl⟩ := Option.map_eq_some_iff.mp h
    cases hp : patch.baseHeadVersion with
    | none => exact .inl ⟨run, hrun, hb, by simpa [hp] using hv⟩
    | some base =>
      have hbase : base = v := by simpa [hp] using hv
      exact .inr ⟨rfl, congrArg some hbase, run, hrun, hb⟩
  · exact .inl ⟨run', h, hb, hv⟩

theorem Unchanged.headsAdvance (h : Unchanged w w') : HeadsAdvance w w' :=
  .same (fun i b hi => by rwa [World.branch?, h.branches]) h.headMoves

theorem Unchanged.headLaw (h : Unchanged w w') (hw' : Lawful w') (hl : HeadLaw w) : HeadLaw w' := by
  refine hl.grow h.headsAdvance hw'
    (fun b hb => Nat.lt_of_lt_of_le (hl.branchIds b (h.branches ▸ hb)) h.nextId)
    (h.branches ▸ hl.unique) (fun m hm => .inl (h.headMoves ▸ hm)) (fun r run b v hrun hb hv => ?_)
    (h.headMoves ▸ hl.once)
  rw [World.run?, h.runs] at hrun
  exact .inl ⟨run, hrun, hb, hv⟩

theorem Change.headLaw (h : Change φ t w op w') (hw : Lawful w) (hw' : Lawful w')
    (hk : Knows w φ) (hl : HeadLaw w) (hh : HeadKnows w φ) : HeadLaw w' := by
  have hg := h.headsAdvance
  have hsame : ∀ r run b v, w.run? r = some run → run.branchId = some b →
      run.baseHeadVersion = some v → (∃ run, w.run? r = some run ∧ run.branchId = some b ∧
        run.baseHeadVersion = some v) ∨ BaseOf w' r b v :=
    fun r run b v hrun hb hv => .inl ⟨run, hrun, hb, hv⟩
  have hids : ∀ {n}, w.nextId ≤ n → ∀ b ∈ w.branches, b._id < n := fun hn b hb =>
    Nat.lt_of_lt_of_le (hl.branchIds b hb) hn
  cases h with
  | unchanged h => exact h.headLaw hw' hl
  | guardAdded hid hr ha =>
    exact hl.grow hg hw' (hids (Nat.le_succ _)) hl.unique (fun m hm => .inl hm) hsame hl.once
  | aborted hguard hc => exact hl.grow hg hw' hl.branchIds hl.unique (fun m hm => .inl hm) hsame hl.once
  | enqueued h => exact hl.grow hg hw' hl.branchIds hl.unique (fun m hm => .inl hm) hsame hl.once
  | @updated r run filter patch hr hu hrun ha =>
    refine hl.grow hg hw' hl.branchIds hl.unique (fun m hm => .inl hm) (fun r' run' b v hrun' hb hv => ?_)
      hl.once
    rcases patched hrun' hb hv with hold | ⟨rfl, hpatch, before, hbefore, hbranch⟩
    · exact .inl hold
    · rcases hu.base with hnone | ⟨ref, branch, href, hread, hid, rfl, hbase⟩
      · rw [hnone] at hpatch
        cases hpatch
      · cases Option.some.inj (hbase.symm.trans hpatch)
        cases Option.some.inj (hrun.symm.trans hbefore)
        have hsubject := hk.subject ref r' href hr
        obtain ⟨stored, hstored, hsb⟩ := hk.branchId href
        rw [hsubject, hrun] at hstored
        cases Option.some.inj hstored
        have hbid : branch._id = b := Option.some.inj (hid.symm.trans (hsb.symm.trans hbranch))
        have hwaiting : run.status = .waitingForCapacity := eq_of_accepts ha
        have hunpersisted : ¬ Persisted w r' := by
          rintro ⟨s, hs, hps⟩
          rw [World.status?, hrun, Option.map_some, hwaiting] at hs
          cases Option.some.inj hs
          cases hps
        have hreached := hh.branch branch hread
        rw [hbid] at hreached
        have hbase : BaseOf w r' b branch.headVersion := .of_unpersisted hw hunpersisted hreached
        exact .inr ⟨hbase.reached, hbase.before⟩
  | @cancelled r userId run hr hrun hc =>
    refine hl.grow hg hw' hl.branchIds hl.unique (fun m hm => .inl hm) (fun r' run' b v hrun' hb hv => ?_)
      hl.once
    rcases patched hrun' hb hv with hold | ⟨-, hpatch, -⟩
    · exact .inl hold
    · cases hpatch
  | @runInserted fields hp =>
    refine hl.grow hg hw' (hids (Nat.le_succ _)) hl.unique (fun m hm => .inl hm)
      (fun r run b v hrun hb hv => ?_) hl.once
    rw [World.run?_insertRun, Option.or_eq_some_iff] at hrun
    rcases hrun with hrun | ⟨-, hrun⟩
    · exact .inl ⟨run, hrun, hb, hv⟩
    · split_ifs at hrun with hid
      subst hid
      cases Option.some.inj hrun
      have hunpersisted : ¬ Persisted w w.nextId := by
        rintro ⟨s, hs, -⟩
        obtain ⟨run, hfound, -⟩ := Option.map_eq_some_iff.mp hs
        rw [World.run?, findById_fresh hw.runIds] at hfound
        cases hfound
      have hreached : Reached w b v := by
        cases hp with
        | quiet h => cases h
        | @createRun project branch _ hproject hbranch hstatus hfb hbase hfp hfu =>
          cases Option.some.inj (hfb.symm.trans hb)
          cases Option.some.inj (hbase.symm.trans hv)
          exact hh.branch branch hbranch
        | @retryRun source _ hsource hstatus href =>
          have hsb := (congrArg RunRef.branchId href).symm.trans hb
          have hsv := (congrArg RunRef.baseHeadVersion href).symm.trans hv
          exact (hh.base source b v hsource hsb hsv).reached
      have hbase : BaseOf w w.nextId b v := .of_unpersisted hw hunpersisted hreached
      exact .inr ⟨hbase.reached, hbase.before⟩
  | eventInserted hp =>
    exact hl.grow hg hw' (hids (Nat.le_succ _)) hl.unique (fun m hm => .inl hm) hsame hl.once
  | snapshotInserted hp hnone =>
    exact hl.grow hg hw' (hids (Nat.le_succ _)) hl.unique (fun m hm => .inl hm) hsame hl.once
  | @branchInserted fields hp hnone =>
    refine hl.grow hg hw' (fun b hb => ?_) ?_ (fun m hm => .inl hm) hsame hl.once
    · rcases List.mem_append.mp hb with hb | hb
      · exact hids (Nat.le_succ _) b hb
      · cases List.mem_singleton.mp hb
        exact Nat.lt_succ_self _
    · change ((w.branches ++ [_]).map _).Nodup
      rw [List.map_append]
      refine List.Nodup.append hl.unique (List.nodup_singleton _) ?_
      refine List.disjoint_singleton.mpr fun hmem => ?_
      obtain ⟨b, hb, hid⟩ := List.mem_map.mp hmem
      exact absurd (hl.branchIds b hb) (by rw [hid]; exact Nat.lt_irrefl _)
  | @headMoved input branch hp hb ha hv =>
    have hafter : Reached (w.moveHead t φ.call.run? input) input.branchId
        (input.expectedHeadVersion + 1) := by
      refine ⟨_, (World.branch?_moveHead ..).trans ((if_pos rfl).trans (congrArg _ hb)), ?_⟩
      exact Nat.le_of_eq (congrArg (· + 1) hv.symm)
    refine hl.grow hg hw' (fun b hb => ?_) ?_ (fun m hm => ?_) hsame ?_
    · obtain ⟨before, hbefore, rfl⟩ := List.mem_map.mp hb
      split_ifs
      · exact hl.branchIds before hbefore
      · exact hl.branchIds before hbefore
    · have hsameIds : (w.moveHead t φ.call.run? input).branches.map (·._id) =
          w.branches.map (·._id) := by
        refine (List.map_map ..).trans (List.map_congr_left fun b _ => ?_)
        rw [Function.comp_apply]
        split_ifs <;> rfl
      rw [hsameIds]
      exact hl.unique
    · rcases List.mem_append.mp hm with hm | hm
      · exact .inl hm
      · cases List.mem_singleton.mp hm
        exact .inr hafter
    · change ((w.headMoves ++ [_]).filterMap _).Nodup
      rw [List.filterMap_append]
      cases hp with
      | quiet h => cases h
      | @commit ref _ hcall hpersisted href hrb hrv hs hm =>
        have hnew := hl.not_moved hw hk hh href hrb hrv hb hv
        simp only [List.filterMap_cons, List.filterMap_nil, hcall]
        refine List.Nodup.append hl.once (List.nodup_singleton _) ?_
        exact List.disjoint_singleton.mpr hnew
      | rollback hcall hbranch hid hversion hm =>
        simp only [List.filterMap_cons, List.filterMap_nil, hcall, Call.run?, List.append_nil]
        exact hl.once
  | projectSet hp => exact hl.grow hg hw' hl.branchIds hl.unique (fun m hm => .inl hm) hsame hl.once
  | projectAdvanced hp => exact hl.grow hg hw' hl.branchIds hl.unique (fun m hm => .inl hm) hsame hl.once

end Steps

section Answers

variable {w w' : World} {φ ψ : Phase} {t : ThreadId} {op : Op}

theorem HeadKnows.same (h : HeadKnows w φ) (hr : ψ.run = φ.run) (hb : ψ.branch = φ.branch) :
    HeadKnows w ψ :=
  ⟨fun branch hbranch => h.branch branch (hb.symm.trans hbranch),
    fun ref b v href => h.base ref b v (hr.symm.trans href)⟩

/-- A run that was read from the database. -/
private theorem HeadKnows.read (h : HeadKnows w φ) (hl : HeadLaw w) {r : ObjectId}
    {found : Option AgentRun} (hfound : ∀ run, found = some run → w.run? r = some run)
    (hr : ψ.run = found.map refOf) (hb : ψ.branch = φ.branch) : HeadKnows w ψ := by
  refine ⟨fun branch hbranch => h.branch branch (hb.symm.trans hbranch), ?_⟩
  intro ref b v href hrb hrv
  rw [hr] at href
  obtain ⟨run, hrun, rfl⟩ := Option.map_eq_some_iff.mp href
  have hstored := hfound run hrun
  have hid : (refOf run).id = r := docId_of_findById hstored
  rw [hid]
  exact hl.bases r run b v hstored hrb hrv

/-- A branch that was read from the database. -/
private theorem HeadKnows.readBranch (h : HeadKnows w φ) {found : Option ProjectBranch}
    (hfound : ∀ b, found = some b → ∃ i, w.branch? i = some b) (hr : ψ.run = φ.run)
    (hb : ψ.branch = found) : HeadKnows w ψ := by
  refine ⟨fun branch hbranch => ?_, fun ref b v href => h.base ref b v (hr.symm.trans href)⟩
  obtain ⟨i, hi⟩ := hfound branch (hb.symm.trans hbranch)
  exact reached_of_branch? hi

private theorem Phase.onUpdate_same (φ : Phase) (filter : StatusFilter) (patch : RunPatch) (n : ℕ) :
    (φ.onUpdate filter patch n).run = φ.run ∧ (φ.onUpdate filter patch n).branch = φ.branch := by
  unfold Phase.onUpdate
  split
  · split <;> exact ⟨rfl, rfl⟩
  · split <;> exact ⟨rfl, rfl⟩
  · exact ⟨rfl, rfl⟩
  · split <;> exact ⟨rfl, rfl⟩
  · split <;> exact ⟨rfl, rfl⟩
  · exact ⟨rfl, rfl⟩

private theorem HeadKnows.onBranch (h : HeadKnows w φ) {b : ObjectId} (site : ReadSite) :
    HeadKnows w (φ.onBranch site (w.branch? b)) := by
  have hread : ∀ branch, w.branch? b = some branch → ∃ i, w.branch? i = some branch :=
    fun branch hbranch => ⟨b, hbranch⟩
  unfold Phase.onBranch
  split
  · exact h.readBranch hread rfl rfl
  · exact h.same rfl rfl
  · split
    · exact h
    · exact h.same rfl rfl
  · exact h

private theorem HeadKnows.onRun (h : HeadKnows w φ) (hl : HeadLaw w) {r : ObjectId}
    (site : ReadSite) : HeadKnows w (φ.onRun site (w.run? r)) := by
  have hread : ∀ run, w.run? r = some run → w.run? r = some run := fun _ hrun => hrun
  cases site with
  | createAgentJobProcessor => exact h.read hl hread rfl rfl
  | processAgentRun => exact h.read hl hread rfl rfl
  | processValidationCandidate => exact h.read hl hread rfl rfl
  | _ => exact h

theorem HeadKnows.next_error (h : HeadKnows w φ) (op : Op) (e : AgentError) :
    HeadKnows w (φ.next op (.error e)) := by
  rcases Server.next_error φ op e with he | he
  · rw [he]
    exact h.same rfl rfl
  · rw [he]
    exact h

theorem HeadLaw.branch?_of_mem (h : HeadLaw w) {b : ProjectBranch} (hb : b ∈ w.branches) :
    w.branch? b._id = some b := by
  cases hfind : w.branch? b._id with
  | none => exact absurd BEq.rfl (List.find?_eq_none.mp hfind b hb)
  | some found =>
    have hid : found._id = b._id := docId_of_findById hfind
    exact congrArg some (List.inj_on_of_nodup_map h.unique (List.mem_of_find?_eq_some hfind) hb hid)

/-- What is read of a run or of a branch was stored. -/
theorem HeadKnows.next {v : op.Reply} (hp : Permit φ op) (hl : HeadLaw w) (hl' : HeadLaw w')
    (h : HeadKnows w' φ) (hexec : World.exec t φ.call.run? op w = (.ok v, w')) :
    HeadKnows w' (φ.next op (.ok v)) := by
  cases hp with
  | quiet hq =>
    rw [next_quiet φ hq]
    exact h
  | findRun site hr =>
    cases hexec
    exact h.onRun hl site
  | findRetryableRun r userId hr =>
    cases hexec
    exact h.read hl (fun run hrun => (Option.filter_eq_some_iff.mp hrun).1) rfl rfl
  | findActiveBranch b hproject hm =>
    cases hexec
    exact h.readBranch (fun branch hb => ⟨b, (Option.filter_eq_some_iff.mp hb).1⟩) rfl rfl
  | @upsertMainBranch project fields hproject hm hfp hname hhead hversion =>
    have hmem : v ∈ w'.branches := by
      simp only [World.exec, World.answer] at hexec
      rcases w.upsertMainBranch_cases fields with ⟨b, hb, hu⟩ | ⟨hnone, hu⟩
      · rw [hu] at hexec
        cases hexec
        exact List.mem_of_find?_eq_some hb
      · rw [hu] at hexec
        cases hexec
        exact List.mem_append_right _ (List.mem_singleton.mpr rfl)
    refine h.readBranch (fun branch hb => ?_) rfl rfl
    cases Option.some.inj hb
    exact ⟨v._id, hl'.branch?_of_mem hmem⟩
  | findRunBranch site hrun hb hsite =>
    cases hexec
    exact h.onBranch site
  | explainCommit hrun hb hs href hm =>
    cases hexec
    exact h.onBranch .commitBranchHead
  | @updateRun r filter patch hr hu =>
    obtain ⟨hsr, hsb⟩ := φ.onUpdate_same filter patch v
    exact h.same hsr hsb
  | cancelRun userId hr =>
    rw [Phase.next_cancelRun]
    split
    · exact h.same rfl rfl
    · exact h
  | createEvent he =>
    rw [Phase.next_createEvent]
    split
    · exact h.same rfl rfl
    · exact h
  | finalEvent hr he =>
    rw [Phase.next_createEvent]
    split
    · exact h.same rfl rfl
    · exact h
  | eventExists type hr hs =>
    rw [Phase.next_eventExists]
    split
    · exact h
    · exact h.same rfl rfl
  | findSnapshot hq =>
    rw [Phase.next_findSnapshot]
    split
    · exact h.same rfl rfl
    · exact h
  | findRunSnapshot hr hq =>
    rw [Phase.next_findSnapshot]
    split
    · exact h.same rfl rfl
    · exact h
  | commit hr hp hrun hb hv hs hm => cases v <;> exact h.same rfl rfl
  | rollback hc hb hid hv hm => cases v <;> exact h.same rfl rfl
  | _ => exact h.same rfl rfl

end Answers

variable (dependencies : AgentJobProcessorDependencies)

/-- The lifecycle with the heads. -/
def heads : Extension (lifecycle dependencies) where
  ok _ _ := True
  shared _ := HeadLaw
  own _ _ φ w := HeadKnows w φ
  moves _ := HeadsAdvance
  spawn _ call w _ hl _ _ := by
    refine ⟨hl, ⟨fun branch hb => ?_, fun ref b v href => ?_⟩, .refl w⟩
    · cases call <;> cases hb
    · cases call <;> cases href
  advance c t o call op _ φ _ _ _ hw hown hp hw' hown' _ hl hh := by
    obtain ⟨hcall, hk⟩ := hown
    have hchange := perform_change dependencies hp hcall t c.state o
    have hl' := hchange.headLaw hw hw' hk hl hh
    refine ⟨hl', ?_, hchange.headsAdvance⟩
    have hkept : Knows ((server dependencies).perform t call op c.state o).2 φ :=
      hk.grow hchange.grows
    have hh' := hh.grow hchange.headsAdvance hw' hkept
    cases o with
    | refused e => exact hh'.next_error op e
    | unacknowledged e => exact hh'.next_error op e
    | done =>
      subst hcall
      cases hr : World.exec t φ.call.run? op c.state with
      | mk r w' =>
        have hstate : ((server dependencies).perform t φ.call op c.state .done).2 = w' :=
          congrArg Prod.snd hr
        have hreply : ((server dependencies).perform t φ.call op c.state .done).1 = r :=
          congrArg Prod.fst hr
        rw [hstate] at hl' hh' ⊢
        rw [hreply]
        cases r with
        | error e => exact hh'.next_error op e
        | ok v => exact hh'.next hp hl hl' hr
  crash _ c t call _ φ _ _ hw hown _ hl hh := by
    have hu := stopTimers_unchanged t c.state
    have hw' := hu.lawful hw
    exact ⟨hu.headLaw hw' hl,
      (hh.grow hu.headsAdvance hw' (hown.2.grow hu.grows)).same rfl rfl, hu.headsAdvance⟩
  act c a w _ ha hw _ hl := by
    have hu := act_unchanged ha
    exact ⟨hu.headLaw (hu.lawful hw) hl, hu.headsAdvance⟩
  stable _ _ _ _ _ _ _ _ hw' hgrows _ _ hm _ _ hown hh := hh.grow hm hw' (hown.2.grow hgrows)

section Refusal

variable {dependencies : AgentJobProcessorDependencies} {c : Running}

/-- A call does not forget that its compare-and-set was refused. -/
theorem Phase.next_refused {φ : Phase} (h : φ.refused = true) (op : Op) (r : api.Answer op) :
    (φ.next op r).refused = true := by
  cases r with
  | error e =>
    rcases Server.next_error φ op e with he | he
    · rw [he]
      exact h
    · rw [he]
      exact h
  | ok v =>
    cases op with
    | findRun id site => cases site <;> exact h
    | findBranch id site =>
      show (φ.onBranch site v).refused = true
      unfold Phase.onBranch
      split
      · exact h
      · exact h
      · split <;> exact h
      · exact h
    | updateRun id filter patch =>
      show (φ.onUpdate filter patch v).refused = true
      unfold Phase.onUpdate
      split
      · split <;> exact h
      · split <;> exact h
      · exact h
      · split <;> exact h
      · split <;> exact h
      · exact h
    | setBranchHead input =>
      cases v with
      | none => rfl
      | some branch => exact h
    | cancelRun id userId =>
      rw [Phase.next_cancelRun]
      split <;> exact h
    | createEvent fields =>
      rw [Phase.next_createEvent]
      split <;> exact h
    | eventExists id type =>
      rw [Phase.next_eventExists]
      split <;> exact h
    | findSnapshot q =>
      rw [Phase.next_findSnapshot]
      split <;> exact h
    | _ => exact h

/-- The branch is not where the writer has seen it. -/
def Stale (w : World) (input : SetBranchHead) : Prop :=
  ∀ b, w.branch? input.branchId = some b → b.headVersion ≠ input.expectedHeadVersion

/-- A rollback that ends with `409`. -/
def Conflicts (p : Promise (Option HttpResponse)) : Prop :=
  ∃ response, p = .pure (some response) ∧ response.status = 409

theorem conflicts_of_refused {req : RollbackRequest} {p : Promise (Option HttpResponse)}
    {ψ : Phase} (h : ψ.refused = true)
    (htracks : protocol.Tracks p ψ (Call.returns (.rollback req)) fun _ => Call.throws (.rollback req))
    (hended : p.pending = none) : Conflicts p := by
  cases p with
  | pure r =>
    obtain ⟨response, rfl, -, hrefused⟩ : ∃ response, r = some response ∧ Rolled response ψ := htracks
    exact ⟨response, rfl, hrefused.mp h⟩
  | throw e =>
    obtain ⟨-, hnot⟩ : ψ.Clean ∧ ψ.refused = false := htracks
    rw [h] at hnot
    cases hnot
  | await op next => cases hended

/-- The thread has been started for the call. -/
def Serves (c : Running) (t : ThreadId) (call : Call) : Prop :=
  ∃ th, c.threads[t]? = some th ∧ th.entry = call

/-- A writer that comes late changes nothing, and a late rollback answers `409`. -/
theorem stale_refused (hc : (lifecycle dependencies).Holds c) {t : ThreadId}
    {input : SetBranchHead} (hpending : c.pending t = some (.setBranchHead input))
    (hstale : Stale c.state input) {c₁ : Running}
    (hstep : (server dependencies).step c (.advance t .done) = some c₁) :
    c₁.state = c.state ∧ ∀ req, Serves c t (.rollback req) → ∀ ls c',
      (server dependencies).play c₁ ls = some c' → ∀ th, c'.threads[t]? = some th →
        th.prog.pending = none → Conflicts th.prog := by
  obtain ⟨call, op, next, ht, -, rfl⟩ := Machine.step_advance hstep
  have hop : op = .setBranchHead input := by
    rw [Config.pending, ht] at hpending
    exact Option.some.inj hpending
  subst hop
  obtain ⟨φ, ⟨hcall, -⟩, hp, htracks⟩ := hc.advancing ht
  have hperform : (server dependencies).perform t call (.setBranchHead input) c.state .done =
      (.ok none, c.state) := by
    show World.exec t call.run? (.setBranchHead input) c.state = _
    simp only [World.exec, World.answer]
    rcases c.state.setBranchHead_cases t call.run? input with ⟨b, hb, -, hv, -⟩ | ⟨-, hw⟩
    · exact absurd hv (hstale b hb)
    · rw [hw]
  have hanswer : Op.Answered (.setBranchHead input) (.ok none) :=
    .inl ⟨t, call.run?, c.state, congrArg Prod.fst hperform⟩
  have hnext := htracks (.ok none) hanswer
  have hrefused : (φ.next (.setBranchHead input) (.ok none)).refused = true := rfl
  rw [hperform]
  refine ⟨rfl, fun req hruns ls c' hplay th hth hended => ?_⟩
  obtain ⟨caller, hcaller, hentry⟩ := hruns
  cases Option.some.inj (ht.symm.trans hcaller)
  cases hentry
  have hlt := (List.getElem?_eq_some_iff.mp ht).1
  have hstay : ∀ (d : Running) o e op next (ψ : Phase),
      d.threads[t]? = some ⟨e, .await op next, false⟩ → True → protocol.permits ψ op →
      ψ.refused = true →
      (protocol.next ψ op ((server dependencies).perform t e op d.state o).1).refused = true :=
    fun _ _ _ op _ _ _ _ _ h => Phase.next_refused h op _
  obtain ⟨th', ψ, hth', hstill, htrack⟩ := Discipline.tracks_along (serverConformance dependencies)
    hstay (Machine.along_true _ _) hplay (List.getElem?_set_self hlt) hrefused hnext
  cases Option.some.inj (hth'.symm.trans hth)
  exact @conflicts_of_refused req th.prog ψ hstill htrack hended

end Refusal

section Runs

variable {dependencies : AgentJobProcessorDependencies} {w : World} {ls ms : List Step}
  {c c' : Running}

theorem headLaw_initial (hw : Initial w) (hids : (w.branches.map (·._id)).Nodup) : HeadLaw w where
  branchIds := hw.branchIds
  unique := hids
  moves := by simp [hw.headMoves]
  bases := by simp [World.run?, findById, hw.runs]
  once := by simp [hw.headMoves]

theorem heads_holds (hw : Initial w) (hids : (w.branches.map (·._id)).Nodup)
    (h : (server dependencies).play (.initial w) ls = some c) :
    (heads dependencies).discipline.Holds c := by
  refine Discipline.holds_play (Discipline.holds_initial ⟨lawful_initial hw, ?_⟩)
    (Machine.along_of_forall (fun _ _ _ => ⟨trivial, trivial⟩) _) h
  exact headLaw_initial hw hids

/-- In every run of the server the head of a branch goes up by one version with each move, no run
moves it twice, and a writer that comes late changes nothing; a late rollback answers `409`. -/
theorem branch_heads_linear (hw : Initial w) (hids : (w.branches.map (·._id)).Nodup)
    (h : (server dependencies).play (.initial w) ls = some c)
    (h' : (server dependencies).play c ms = some c') :
    HeadsAdvance c.state c'.state ∧ (c'.state.headMoves.filterMap (·.run)).Nodup ∧
    ∀ t input c₁, c'.pending t = some (.setBranchHead input) → Stale c'.state input →
      (server dependencies).step c' (.advance t .done) = some c₁ →
        c₁.state = c'.state ∧ ∀ req, Serves c' t (.rollback req) → ∀ ls c₂,
          (server dependencies).play c₁ ls = some c₂ → ∀ th, c₂.threads[t]? = some th →
            th.prog.pending = none → Conflicts th.prog := by
  have hc := heads_holds hw hids h
  have halong : (server dependencies).Along (heads dependencies).discipline.ok c ms :=
    Machine.along_of_forall (fun _ _ _ => ⟨trivial, trivial⟩) _
  have hc' : (heads dependencies).discipline.Holds c' :=
    Discipline.holds_play hc halong h'
  have hmoves : ∀ m w w', (heads dependencies).discipline.moves m w w' → HeadsAdvance w w' :=
    fun _ _ _ hm => hm.2
  refine ⟨?_, hc'.1.2.once, fun t input c₁ hpending hstale hstep => ?_⟩
  · exact Discipline.play_moves HeadsAdvance.refl (fun _ _ _ => HeadsAdvance.trans) hmoves hc
      halong h'
  · exact stale_refused ((heads dependencies).holds_below hc') hpending hstale hstep

/-- The first run of the sample project is completed. -/
def firstRun : List Step :=
  .spawn (.createRun sampleRequest) :: List.replicate 8 (.advance 0 .done) ++
    .spawn (.deliver ⟨.agentRun, 11, none⟩) :: List.replicate 51 (.advance 1 .done)

theorem first_run_moves_head : ∃ c,
    (server sampleDependencies).play (.initial sampleWorld) firstRun = some c ∧
    c.state.headMoves.map (·.run) = [some 11] ∧ HeadsAdvance sampleWorld c.state := by
  have hc : ((server sampleDependencies).play (.initial sampleWorld) firstRun).any
      (fun c => c.state.headMoves.map (·.run) == [some 11]) = true := by decide +kernel
  obtain ⟨c, h, hmoves⟩ := (Option.any_eq_true ..).mp hc
  have hstart : (server sampleDependencies).play (.initial sampleWorld) [] =
    some (.initial sampleWorld) := rfl
  exact ⟨c, h, beq_iff_eq.mp hmoves,
    (branch_heads_linear sampleWorld_initial List.nodup_nil hstart h).1⟩

end Runs

end AppBuilder.Server
