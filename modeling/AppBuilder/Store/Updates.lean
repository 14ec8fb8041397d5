import AppBuilder.Store.Laws

/-! What each write does to the documents, as lookups see it. -/
namespace AppBuilder.Store
open Agent Async

namespace World

variable (w : World) (t : ThreadId) (r : ObjectId)

theorem run?_patchRun (id : ObjectId) (patch : RunPatch) :
    (w.patchRun t id patch).run? r = if r = id then (w.run? r).map patch.apply else w.run? r :=
  findById_modifyById w.runs id r patch.apply fun _ => rfl

theorem run?_insertRun (fields : AgentRun) :
    (w.insertRun fields).2.run? r =
      (w.run? r).or (if w.nextId = r then some { fields with _id := w.nextId } else none) :=
  findById_append w.runs _ r

theorem snapshotOf?_insertSnapshot (fields : ProjectSnapshot) :
    (w.insertSnapshot fields).2.snapshotOf? r = (w.snapshotOf? r).or
      (if fields.sourceRunId = r then some { fields with _id := w.nextId } else none) := by
  simp [snapshotOf?, insertSnapshot, List.find?_append, List.find?_singleton]

theorem branch?_moveHead (run : Option ObjectId) (input : SetBranchHead) :
    (w.moveHead t run input).branch? r =
      if r = input.branchId then (w.branch? r).map fun b => { b with
        headSnapshotId := some input.snapshotId, headVersion := b.headVersion + 1 }
      else w.branch? r :=
  findById_modifyById w.branches input.branchId r _ fun _ => rfl

theorem branch?_insertBranch (fields : ProjectBranch) :
    (w.insertBranch fields).2.branch? r =
      (w.branch? r).or (if w.nextId = r then some { fields with _id := w.nextId } else none) :=
  findById_append w.branches _ r

theorem project?_modifyProject (id : ObjectId) {f : Project → Project}
    (hf : ∀ p, (f p)._id = p._id) :
    (w.modifyProject t id f).project? r = if r = id then (w.project? r).map f else w.project? r :=
  findById_modifyById w.projects id r f hf

variable {w t r}

/-- A filtered update rewrites a run that passes the filter, and nothing otherwise. -/
theorem updateRun_cases (w : World) (t : ThreadId) (id : ObjectId) (filter : StatusFilter)
    (patch : RunPatch) :
    (∃ run, w.run? id = some run ∧ filter.accepts run.status = true ∧
      w.updateRun t id filter patch = (1, w.patchRun t id patch)) ∨
    ((∀ run, w.run? id = some run → filter.accepts run.status = false) ∧
      w.updateRun t id filter patch = (0, w)) := by
  unfold updateRun
  cases w.run? id with
  | none => exact .inr ⟨by simp, rfl⟩
  | some run =>
    cases ha : filter.accepts run.status with
    | true => exact .inl ⟨run, rfl, ha, by simp [ha]⟩
    | false => exact .inr ⟨by simpa using ha, by simp [ha]⟩

theorem cancelRun_cases (w : World) (t : ThreadId) (id userId : ObjectId) :
    (∃ run, w.run? id = some run ∧ run.status ∈ cancellableStatuses ∧
      w.cancelRun t id userId =
        ((w.patchRun t id { status := some .cancelled, completedAt := some w.clock }).run? id,
          w.patchRun t id { status := some .cancelled, completedAt := some w.clock })) ∨
    w.cancelRun t id userId = (none, w) := by
  unfold cancelRun
  cases hr : w.run? id with
  | none => exact .inr rfl
  | some run =>
    by_cases ha : run.userId = userId ∧ run.status ∈ cancellableStatuses
    · exact .inl ⟨run, rfl, ha.2, if_pos (by simpa using ha)⟩
    · exact .inr (if_neg (by simpa using ha))

theorem createRun_cases (w : World) (fields : AgentRun) :
    w.createRun fields = (.ok (w.insertRun fields).1, (w.insertRun fields).2) ∨
      w.createRun fields = (.error duplicateKeyError, w) := by
  unfold createRun
  split_ifs
  · exact .inr rfl
  · exact .inl rfl

theorem upsertSnapshot_cases (w : World) (fields : ProjectSnapshot) :
    (∃ s, w.snapshotOf? fields.sourceRunId = some s ∧ w.upsertSnapshot fields = (s, w)) ∨
    (w.snapshotOf? fields.sourceRunId = none ∧
      w.upsertSnapshot fields = w.insertSnapshot fields) := by
  unfold upsertSnapshot
  cases w.snapshotOf? fields.sourceRunId with
  | some s => exact .inl ⟨s, rfl, rfl⟩
  | none => exact .inr ⟨rfl, rfl⟩

theorem upsertMainBranch_cases (w : World) (fields : ProjectBranch) :
    (∃ b, w.mainBranch? fields.projectId = some b ∧ w.upsertMainBranch fields = (b, w)) ∨
    (w.mainBranch? fields.projectId = none ∧
      w.upsertMainBranch fields = w.insertBranch fields) := by
  unfold upsertMainBranch
  cases w.mainBranch? fields.projectId with
  | some b => exact .inl ⟨b, rfl, rfl⟩
  | none => exact .inr ⟨rfl, rfl⟩

/-- The compare-and-set moves an active head that is at the expected version, and nothing
otherwise. -/
theorem setBranchHead_cases (w : World) (t : ThreadId) (run : Option ObjectId)
    (input : SetBranchHead) :
    (∃ b, w.branch? input.branchId = some b ∧ b.status = .active ∧
      b.headVersion = input.expectedHeadVersion ∧
      w.setBranchHead t run input = (some { b with
        headSnapshotId := some input.snapshotId, headVersion := b.headVersion + 1 },
        w.moveHead t run input)) ∨
    ((∀ b, w.branch? input.branchId = some b → b.status = .active →
        b.headVersion ≠ input.expectedHeadVersion) ∧
      w.setBranchHead t run input = (none, w)) := by
  unfold setBranchHead
  cases hb : w.branch? input.branchId with
  | none => exact .inr ⟨by simp, rfl⟩
  | some b =>
    by_cases ha : b.status = .active ∧ b.headVersion = input.expectedHeadVersion
    · refine .inl ⟨b, rfl, ha.1, ha.2, ?_⟩
      simp [ha.1, ha.2, branch?_moveHead, hb]
    · refine .inr ⟨fun b' hb' hs hv => ha ?_, ?_⟩
      · cases Option.some.inj hb'
        exact ⟨hs, hv⟩
      · rw [if_neg (by simpa using ha)]

end World
end AppBuilder.Store
