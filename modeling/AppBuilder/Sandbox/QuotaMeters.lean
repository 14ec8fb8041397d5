import AppBuilder.Quota.Meter
import AppBuilder.Sandbox.LeaseInvariant
import Mathlib.Algebra.Order.Ring.Rat
import Mathlib.Algebra.BigOperators.Ring.Finset

/-! The quotas of projects and workspaces, as meters over the records of the occupying leases. -/
namespace AppBuilder.Sandbox
open Agent Async Quota
open Store (docId modifyById)

abbrev QuotaMeter := Meter SandboxReservationRecord ℚ

def projectMeter (project : ProjectDocument) (projectId : ObjectId) (purpose : SandboxPurpose) :
    QuotaMeter :=
  .counting (fun record => record.projectId = projectId ∧ record.purpose = purpose)
    (projectLimit project purpose)

def workspaceMeter (limits : ExecutionLimits) (workspaceId : ObjectId) (purpose : SandboxPurpose) :
    QuotaMeter :=
  .counting (fun record => record.workspaceId = workspaceId ∧ record.purpose = purpose)
    (workspaceLimit limits purpose)

def resourceMeter (workspaceId : ObjectId) (amount : ResourceProfile → ℚ) (limit : ℚ) : QuotaMeter :=
  .measuring (fun record => record.workspaceId = workspaceId)
    (fun record => amount record.resourceProfile) limit

inductive ProjectMeter (directory : Directory) : QuotaMeter → Prop
  | count {projectId project} (purpose : SandboxPurpose)
    (stored : directory.project projectId = some project) :
    ProjectMeter directory (projectMeter project projectId purpose)

inductive WorkspaceMeter (directory : Directory) : QuotaMeter → Prop
  | count {workspaceId workspace} (purpose : SandboxPurpose)
    (stored : directory.workspace workspaceId = some workspace) :
    WorkspaceMeter directory (workspaceMeter workspace.executionLimits workspaceId purpose)
  | cpu {workspaceId workspace} (stored : directory.workspace workspaceId = some workspace) :
    WorkspaceMeter directory
      (resourceMeter workspaceId (·.cpu) workspace.executionLimits.maxCpu)
  | memory {workspaceId workspace} (stored : directory.workspace workspaceId = some workspace) :
    WorkspaceMeter directory
      (resourceMeter workspaceId (·.memoryMiB) workspace.executionLimits.maxMemoryMiB)
  | disk {workspaceId workspace} (stored : directory.workspace workspaceId = some workspace) :
    WorkspaceMeter directory
      (resourceMeter workspaceId (·.diskMiB) workspace.executionLimits.maxDiskMiB)

/-- All meters of projects are within their limits. -/
def WithinProjects (directory : Directory) (s : Multiset SandboxReservationRecord) : Prop :=
  ∀ m, ProjectMeter directory m → m.Within s

def WithinWorkspaces (directory : Directory) (s : Multiset SandboxReservationRecord) : Prop :=
  ∀ m, WorkspaceMeter directory m → m.Within s

def WithinLimits (directory : Directory) (s : Multiset SandboxReservationRecord) : Prop :=
  WithinProjects directory s ∧ WithinWorkspaces directory s

section Weights

variable {directory : Directory} {m : QuotaMeter} {record other : SandboxReservationRecord}

theorem valid_cpu (h : record.valid = true) : 0 < record.resourceProfile.cpu := by
  simp only [SandboxReservationRecord.valid, Bool.and_eq_true, decide_eq_true_eq] at h
  exact h.1.1.2

theorem ProjectMeter.nonneg (hm : ProjectMeter directory m) : 0 ≤ m.weight record := by
  cases hm with
  | count purpose stored => exact Meter.measuring_weight_nonneg _ zero_le_one

theorem WorkspaceMeter.nonneg (hm : WorkspaceMeter directory m) (h : record.valid = true) :
    0 ≤ m.weight record := by
  cases hm with
  | count purpose stored => exact Meter.measuring_weight_nonneg _ zero_le_one
  | cpu stored => exact Meter.measuring_weight_nonneg _ (valid_cpu h).le
  | memory stored | disk stored => exact Meter.measuring_weight_nonneg _ (Nat.cast_nonneg _)

/-- Records of different projects are not measured together. -/
theorem ProjectMeter.apart (hm : ProjectMeter directory m)
    (hne : record.projectId ≠ other.projectId) : m.weight record = 0 ∨ m.weight other = 0 := by
  cases hm with
  | @count projectId project purpose stored =>
    by_cases hr : record.projectId = projectId
    · exact .inr (Meter.measuring_weight_of_not _ fun h => hne (hr.trans h.1.symm))
    · exact .inl (Meter.measuring_weight_of_not _ fun h => hr h.1)

theorem WorkspaceMeter.apart (hm : WorkspaceMeter directory m)
    (hne : record.workspaceId ≠ other.workspaceId) : m.weight record = 0 ∨ m.weight other = 0 := by
  cases hm with
  | @count workspaceId workspace purpose stored =>
    by_cases hr : record.workspaceId = workspaceId
    · exact .inr (Meter.measuring_weight_of_not _ fun h => hne (hr.trans h.1.symm))
    · exact .inl (Meter.measuring_weight_of_not _ fun h => hr h.1)
  | @cpu workspaceId workspace stored | @memory workspaceId workspace stored
  | @disk workspaceId workspace stored =>
    by_cases hr : record.workspaceId = workspaceId
    · exact .inr (Meter.measuring_weight_of_not _ fun h => hne (hr.trans h.symm))
    · exact .inl (Meter.measuring_weight_of_not _ fun h => hr h)

end Weights

/-- The records of the occupying ones among `leases`. -/
def demandOf (leases : List SandboxLease) : Multiset SandboxReservationRecord :=
  ((leases.filter fun lease => lease.Occupying).map fun lease =>
    lease.toSandboxReservationRecord : List SandboxReservationRecord)

@[simp] theorem demandOf_append (as bs : List SandboxLease) :
    demandOf (as ++ bs) = demandOf as + demandOf bs := by simp [demandOf]

theorem demandOf_singleton (lease : SandboxLease) : demandOf [lease] =
    if lease.Occupying then {lease.toSandboxReservationRecord} else 0 := by
  by_cases h : lease.Occupying <;> simp [demandOf, h]

namespace SandboxWorld

variable {directory : Directory} {key : SandboxRef → String} {w w' : SandboxWorld key}

/-- The records of the occupying leases. -/
def demand (w : SandboxWorld key) : Multiset SandboxReservationRecord := demandOf w.leases

theorem countP_project (projectId : ObjectId) (purpose : SandboxPurpose) :
    w.demand.countP (fun record => record.projectId = projectId ∧ record.purpose = purpose) =
      w.countProject projectId purpose := by
  rw [demand, demandOf, Multiset.coe_countP, List.countP_map, countProject, occupying]
  congr 2
  funext lease
  simp [beq_eq_decide]

theorem countP_workspace (workspaceId : ObjectId) (purpose : SandboxPurpose) :
    w.demand.countP (fun record => record.workspaceId = workspaceId ∧ record.purpose = purpose) =
      (w.workspaceUsage workspaceId).count purpose := by
  rw [demand, demandOf, Multiset.coe_countP, List.countP_map, workspaceUsage, occupying]
  cases purpose <;>
  · simp only [WorkspaceUsage.count, List.countP_filter]
    congr 2
    funext lease
    simp [beq_eq_decide, Bool.and_comm]

theorem used_resourceMeter (workspaceId : ObjectId) (amount : ResourceProfile → ℚ) (limit : ℚ) :
    (resourceMeter workspaceId amount limit).used w.demand =
      ((w.occupying.filter fun lease => lease.workspaceId == workspaceId).map fun lease =>
        amount lease.resourceProfile).sum := by
  rw [resourceMeter, Meter.used_measuring, demand, demandOf, Multiset.filter_coe,
    Multiset.map_coe, Multiset.sum_coe, List.filter_map, List.map_map, occupying]
  congr 2

theorem used_cpu (workspaceId : ObjectId) (limit : ℚ) :
    (resourceMeter workspaceId (·.cpu) limit).used w.demand =
      (w.workspaceUsage workspaceId).cpu := used_resourceMeter ..

theorem used_memory (workspaceId : ObjectId) (limit : ℚ) :
    (resourceMeter workspaceId (·.memoryMiB) limit).used w.demand =
      (w.workspaceUsage workspaceId).memoryMiB := by
  rw [used_resourceMeter, workspaceUsage, Nat.cast_list_sum, List.map_map]
  rfl

theorem used_disk (workspaceId : ObjectId) (limit : ℚ) :
    (resourceMeter workspaceId (·.diskMiB) limit).used w.demand =
      (w.workspaceUsage workspaceId).diskMiB := by
  rw [used_resourceMeter, workspaceUsage, Nat.cast_list_sum, List.map_map]
  rfl

/-- Only the replaced lease changes what is demanded. -/
theorem Replaces.demand {lease updated : SandboxLease} (h : w.Replaces w' lease updated)
    (hids : (w.leases.map fun lease => lease._id).Nodup) :
    ∃ rest, w.demand = demandOf [lease] + rest ∧ w'.demand = demandOf [updated] + rest := by
  obtain ⟨as, bs, heq⟩ := List.append_of_mem (mem_of_lease? h.stored)
  have hothers : ∀ other ∈ as ++ bs, other._id ≠ lease._id := by
    rw [heq, List.map_append, List.map_cons, List.nodup_middle, ← List.map_append,
      List.nodup_cons] at hids
    intro other ho he
    exact hids.1 (List.mem_map.mpr ⟨other, ho, he⟩)
  have hkeep : ∀ cs, (∀ other ∈ cs, other ∈ as ++ bs) →
      modifyById cs lease._id (fun _ => updated) = cs := by
    intro cs hcs
    rw [modifyById]
    refine (List.map_congr_left fun other ho => ?_).trans (List.map_id cs)
    exact if_neg (by simpa [docId] using hothers other (hcs other ho))
  have hleases : w'.leases = as ++ [updated] ++ bs := by
    have has := hkeep as fun _ ho => List.mem_append_left _ ho
    have hbs := hkeep bs fun _ ho => List.mem_append_right _ ho
    rw [h.leases, heq, modifyById, List.map_append, List.map_cons, ← modifyById, ← modifyById, has,
      hbs]
    simp [docId]
  refine ⟨demandOf as + demandOf bs, ?_, ?_⟩
  · rw [SandboxWorld.demand, heq, List.append_cons, demandOf_append, demandOf_append,
      Multiset.add_comm (demandOf as), Multiset.add_assoc]
  · rw [SandboxWorld.demand, hleases, demandOf_append, demandOf_append,
      Multiset.add_comm (demandOf as), Multiset.add_assoc]

end SandboxWorld

section Room

variable {directory : Directory} {key : SandboxRef → String} {w : SandboxWorld key}
  {record : SandboxReservationRecord} {project : ProjectDocument} {workspace : WorkspaceDocument}

theorem exceedsQuota_eq_false {limits : ExecutionLimits} {projectCount : ℕ}
    {usage : WorkspaceUsage} : exceedsQuota record project limits projectCount usage = false ↔
      projectCount + 1 ≤ projectLimit project record.purpose ∧
      usage.count record.purpose + 1 ≤ workspaceLimit limits record.purpose ∧
      usage.cpu + record.resourceProfile.cpu ≤ limits.maxCpu ∧
      usage.memoryMiB + record.resourceProfile.memoryMiB ≤ limits.maxMemoryMiB ∧
      usage.diskMiB + record.resourceProfile.diskMiB ≤ limits.maxDiskMiB := by
  simp [exceedsQuota, and_assoc]

/-- A lease that the project has room for. -/
theorem WithinProjects.reserve (h : WithinProjects directory w.demand)
    (hproject : directory.project record.projectId = some project)
    (hroom : w.countProject record.projectId record.purpose + 1 ≤
      projectLimit project record.purpose) :
    WithinProjects directory (record ::ₘ w.demand) := by
  intro m hm
  have hw := h m hm
  cases hm with
  | count purpose stored =>
    refine Meter.Within.cons_counting _ hw ?_
    rintro ⟨rfl, rfl⟩
    cases hproject.symm.trans stored
    rw [SandboxWorld.countP_project]
    exact hroom

/-- A lease that the workspace has room for. -/
theorem WithinWorkspaces.reserve (h : WithinWorkspaces directory w.demand)
    (hworkspace : directory.workspace record.workspaceId = some workspace) {projectCount : ℕ}
    (hroom : exceedsQuota record project workspace.executionLimits projectCount
      (w.workspaceUsage record.workspaceId) = false) :
    WithinWorkspaces directory (record ::ₘ w.demand) := by
  obtain ⟨-, hcount, hcpu, hmemory, hdisk⟩ := exceedsQuota_eq_false.mp hroom
  intro m hm
  have hw := h m hm
  cases hm with
  | count purpose stored =>
    refine Meter.Within.cons_counting _ hw ?_
    rintro ⟨rfl, rfl⟩
    cases hworkspace.symm.trans stored
    rw [SandboxWorld.countP_workspace]
    exact hcount
  | cpu stored =>
    refine Meter.Within.cons_measuring _ hw ?_
    rintro rfl
    cases hworkspace.symm.trans stored
    have hused := SandboxWorld.used_cpu (w := w) record.workspaceId workspace.executionLimits.maxCpu
    rw [resourceMeter] at hused
    rw [hused, add_comm]
    exact hcpu
  | memory stored =>
    refine Meter.Within.cons_measuring _ hw ?_
    rintro rfl
    cases hworkspace.symm.trans stored
    have hused := SandboxWorld.used_memory (w := w) record.workspaceId workspace.executionLimits.maxMemoryMiB
    rw [resourceMeter] at hused
    rw [hused, add_comm]
    dsimp only
    exact_mod_cast hmemory
  | disk stored =>
    refine Meter.Within.cons_measuring _ hw ?_
    rintro rfl
    cases hworkspace.symm.trans stored
    have hused := SandboxWorld.used_disk (w := w) record.workspaceId workspace.executionLimits.maxDiskMiB
    rw [resourceMeter] at hused
    rw [hused, add_comm]
    dsimp only
    exact_mod_cast hdisk

end Room

end AppBuilder.Sandbox
