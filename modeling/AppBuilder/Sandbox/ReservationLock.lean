import AppBuilder.Async.Extension
import AppBuilder.Sandbox.LeaseInvariant

/-! A call that has the lock of a workspace is the only one that has it. -/
namespace AppBuilder.Sandbox
open Agent Async

theorem lockOf_cons {op : SandboxOp} {r : sandboxApi.Answer op} {h : SandboxHistory}
    (hlock : ∀ workspaceId, op ≠ .lock workspaceId)
    (hunlock : ∀ workspaceId, op ≠ .unlock workspaceId) : lockOf (⟨op, r⟩ :: h) = lockOf h := by
  cases op with
  | lock workspaceId => exact absurd rfl (hlock workspaceId)
  | unlock workspaceId => exact absurd rfl (hunlock workspaceId)
  | _ => rfl

theorem lockOf_error {op : SandboxOp} {e : Failure} {h : SandboxHistory} {workspaceId : ObjectId}
    (hl : lockOf (⟨op, .error e⟩ :: h) = some workspaceId) : lockOf h = some workspaceId := by
  cases op with
  | unlock => cases hl
  | _ => exact hl

namespace SandboxWorld

variable {key : SandboxRef → String} {w : SandboxWorld key}

def LocksExclusive (w : SandboxWorld key) : Prop :=
  ∀ workspaceId t u, (workspaceId, t) ∈ w.locks → (workspaceId, u) ∈ w.locks → t = u

/-- The locks that the calls other than `t` have are still theirs. -/
def KeepsLocks (m : Option ThreadId) (w w' : SandboxWorld key) : Prop :=
  ∀ workspaceId u, m ≠ some u → (workspaceId, u) ∈ w.locks → (workspaceId, u) ∈ w'.locks

theorem KeepsLocks.of_eq {m : Option ThreadId} {w' : SandboxWorld key} (h : w'.locks = w.locks) :
    KeepsLocks m w w' := by
  intro workspaceId u _ hu
  rwa [h]

variable (directory : Directory) (t : ThreadId)

theorem exec_locks {op : SandboxOp} (hlock : ∀ workspaceId, op ≠ .lock workspaceId)
    (hunlock : ∀ workspaceId, op ≠ .unlock workspaceId) (w : SandboxWorld key) :
    (w.exec directory t op).2.locks = w.locks := by
  cases op with
  | lock workspaceId => exact absurd rfl (hlock workspaceId)
  | unlock workspaceId => exact absurd rfl (hunlock workspaceId)
  | transition | bindExternalId | clearExternalId | claimProvisioning | heartbeatRunning
  | claimStaleRunning =>
    simp only [exec]
    rw [updateLease_eq]
  | createLease record =>
    simp only [exec, createLease]
    split_ifs <;> rfl
  | assertHeld workspaceId =>
    simp only [exec]
    split_ifs <;> rfl
  | inspect ref =>
    simp only [exec]
    split <;> rfl
  | destroy ref =>
    simp only [exec]
    split <;> rfl
  | beginHeartbeat commandId =>
    simp only [exec]
    split_ifs <;> rfl
  | _ => rfl

theorem exec_locks_subset {op : SandboxOp} (hunlock : ∀ workspaceId, op ≠ .unlock workspaceId)
    (w : SandboxWorld key) : w.locks ⊆ (w.exec directory t op).2.locks := by
  by_cases hlock : ∃ workspaceId, op = .lock workspaceId
  · obtain ⟨workspaceId, rfl⟩ := hlock
    simp only [exec]
    split_ifs
    · exact List.Subset.refl _
    · exact List.subset_cons_self _ _
  · rw [exec_locks directory t (fun workspaceId he => hlock ⟨workspaceId, he⟩) hunlock]
    exact List.Subset.refl _

theorem exec_keepsLocks (op : SandboxOp) (w : SandboxWorld key) :
    KeepsLocks (some t) w (w.exec directory t op).2 := by
  intro other u hne hu
  by_cases hunlock : ∃ workspaceId, op = .unlock workspaceId
  · obtain ⟨workspaceId, rfl⟩ := hunlock
    refine List.mem_filter.mpr ⟨hu, ?_⟩
    have hut : u ≠ t := fun he => hne (congrArg some he.symm)
    simp [hut]
  · exact exec_locks_subset directory t (fun workspaceId he => hunlock ⟨workspaceId, he⟩) w hu

theorem exec_locksExclusive (op : SandboxOp) (hw : w.LocksExclusive) :
    (w.exec directory t op).2.LocksExclusive := by
  by_cases hlock : ∃ workspaceId, op = .lock workspaceId
  · obtain ⟨workspaceId, rfl⟩ := hlock
    simp only [exec]
    split_ifs with hbusy
    · exact hw
    · simp only [List.any_eq_true, beq_iff_eq, not_exists, not_and] at hbusy
      intro other a b ha hb
      rcases List.mem_cons.mp ha with ha | ha
      · cases ha
        rcases List.mem_cons.mp hb with hb | hb
        · cases hb
          rfl
        · exact absurd rfl (hbusy _ hb)
      · rcases List.mem_cons.mp hb with hb | hb
        · cases hb
          exact absurd rfl (hbusy _ ha)
        · exact hw other a b ha hb
  by_cases hunlock : ∃ workspaceId, op = .unlock workspaceId
  · obtain ⟨workspaceId, rfl⟩ := hunlock
    intro other a b ha hb
    exact hw other a b (List.mem_filter.mp ha).1 (List.mem_filter.mp hb).1
  · have he := exec_locks directory t (fun workspaceId he => hlock ⟨workspaceId, he⟩)
      (fun workspaceId he => hunlock ⟨workspaceId, he⟩) w
    intro other a b ha hb
    rw [he] at ha hb
    exact hw other a b ha hb

/-- A call that was given a lock, and has not given it back, has it. -/
theorem exec_lockOf {op : SandboxOp} {h : SandboxHistory}
    (hown : ∀ workspaceId, lockOf h = some workspaceId → (workspaceId, t) ∈ w.locks)
    (workspaceId : ObjectId)
    (hl : lockOf (⟨op, (w.exec directory t op).1⟩ :: h) = some workspaceId) :
    (workspaceId, t) ∈ (w.exec directory t op).2.locks := by
  by_cases hlock : ∃ other, op = .lock other
  · obtain ⟨other, rfl⟩ := hlock
    simp only [exec] at hl ⊢
    split_ifs at hl ⊢
    · exact hown workspaceId hl
    · cases hl
      exact List.mem_cons_self
  by_cases hunlock : ∃ other, op = .unlock other
  · obtain ⟨other, rfl⟩ := hunlock
    cases hl
  · have hnot := fun other he => hlock ⟨other, he⟩
    have hnot' := fun other he => hunlock ⟨other, he⟩
    rw [exec_locks directory t hnot hnot']
    rw [lockOf_cons hnot hnot'] at hl
    exact hown workspaceId hl

end SandboxWorld

variable (options : SandboxServiceOptions) (directory : Directory) (key : SandboxRef → String)

open SandboxWorld in
def lockExtension : Extension (leaseDiscipline options directory key) where
  ok _ _ := True
  shared _ w := w.LocksExclusive
  own t _ h w := ∀ workspaceId, lockOf h = some workspaceId → (workspaceId, t) ∈ w.locks
  moves m w w' := KeepsLocks m w w'
  spawn n call w _ hw _ _ := ⟨hw, fun _ hl => (nomatch hl), .of_eq rfl⟩
  advance c t o call op next h _ _ _ _ _ _ _ _ _ hw hown := by
    cases o with
    | done =>
      exact ⟨exec_locksExclusive directory t op hw, exec_lockOf directory t hown,
        exec_keepsLocks directory t op c.state⟩
    | refused e => exact ⟨hw, fun ws hl => hown ws (lockOf_error hl), .of_eq rfl⟩
    | unacknowledged e =>
      refine ⟨exec_locksExclusive directory t op hw, fun ws hl => ?_,
        exec_keepsLocks directory t op c.state⟩
      by_cases hunlock : ∃ workspaceId, op = .unlock workspaceId
      · obtain ⟨workspaceId, rfl⟩ := hunlock
        cases hl
      · exact exec_locks_subset directory t (fun workspaceId he => hunlock ⟨workspaceId, he⟩)
          c.state (hown ws (lockOf_error hl))
  crash _ c t call p h _ _ _ _ _ hw hown := by
    refine ⟨fun ws a b ha hb => hw ws a b (List.mem_filter.mp ha).1 (List.mem_filter.mp hb).1,
      fun _ hl => (nomatch hl), fun ws u hne hu => ?_⟩
    refine List.mem_filter.mpr ⟨hu, ?_⟩
    simpa using fun he => hne (congrArg some he.symm)
  act c a w _ ha _ _ hw := by
    cases a <;> cases Option.some.inj ha <;> exact ⟨hw, .of_eq rfl⟩
  stable _ _ _ _ u _ _ _ _ _ _ _ hm hu _ _ hown := fun ws hl => hm ws u hu (hown ws hl)

end AppBuilder.Sandbox
