import AppBuilder.Workspaces.ChatRoutes

/-! What the guards of the routes have established when a route goes on. -/
namespace AppBuilder.Workspaces
open Agent Store Encoding

section Found

variable {db : Database} {userId id : ObjectId}

theorem project?_id {project : Project} (h : db.project? id = some project) :
    project._id = id := docId_of_findById h

theorem chat?_id {chat : Chat} (h : db.chat? id = some chat) : chat._id = id :=
  docId_of_findById h

theorem findOwnedWorkspaceProject_spec {project : Project}
    (h : findOwnedWorkspaceProject db id userId = some project) :
    db.project? project._id = some project ∧ project.userId = userId ∧
      project.workspaceId.isSome := by
  unfold findOwnedWorkspaceProject at h
  split at h
  · cases h
  · rename_i found hfound
    obtain ⟨hstored, howner⟩ := Option.filter_eq_some_iff.mp hfound
    split at h
    · cases h
    · rename_i workspaceId hworkspace
      split_ifs at h
      cases h
      refine ⟨(project?_id hstored).symm ▸ hstored, of_decide_eq_true howner, ?_⟩
      rw [hworkspace, Option.isSome_some]

theorem findOwnedWorkspaceChat_spec {chat : Chat}
    (h : findOwnedWorkspaceChat db id userId = some chat) :
    db.chat? chat._id = some chat ∧ chat.userId = userId := by
  unfold findOwnedWorkspaceChat at h
  split at h
  · cases h
  · rename_i found hfound
    obtain ⟨hstored, howner⟩ := Option.filter_eq_some_iff.mp hfound
    have hchat : found = chat := by
      split at h
      · exact Option.some.inj h
      · obtain ⟨_, _, hchat⟩ := Option.map_eq_some_iff.mp h
        exact hchat
    subst hchat
    exact ⟨(chat?_id hstored).symm ▸ hstored, of_decide_eq_true howner⟩

theorem findOwnedWorkspaceChat_id {chat : Chat}
    (h : findOwnedWorkspaceChat db id userId = some chat) : chat._id = id := by
  unfold findOwnedWorkspaceChat at h
  cases hfound : (db.chat? id).filter (·.userId = userId) with
  | none =>
    rw [hfound] at h
    cases h
  | some found =>
    obtain ⟨hstored, -⟩ := Option.filter_eq_some_iff.mp hfound
    have hchat : found = chat := by
      simp only [hfound] at h
      cases hproject : found.projectId with
      | none =>
        rw [hproject] at h
        exact Option.some.inj h
      | some projectId =>
        rw [hproject] at h
        obtain ⟨_, _, hchat⟩ := Option.map_eq_some_iff.mp h
        exact hchat
    exact hchat ▸ chat?_id hstored

/-- The project that a path parameter names, when it belongs to the user. -/
def ownedProject? (db : Database) (id : Text) (userId : ObjectId) : Option Project :=
  (castObjectId id).bind (findOwnedWorkspaceProject db · userId)

theorem withProject_eq (id : Text) (next : Project → Handler) :
    (ownedProject? db id userId = none ∧ (withProject id userId next db).2 = db) ∨
    ∃ project, ownedProject? db id userId = some project ∧
      db.project? project._id = some project ∧ project.userId = userId ∧
      withProject id userId next db = next project db := by
  unfold withProject ownedProject?
  cases castObjectId id with
  | none => exact .inl ⟨rfl, rfl⟩
  | some id =>
    cases hfound : findOwnedWorkspaceProject db id userId with
    | none => exact .inl ⟨hfound, by simp only [hfound]⟩
    | some project =>
      obtain ⟨hstored, howner, -⟩ := findOwnedWorkspaceProject_spec hfound
      exact .inr ⟨project, hfound, hstored, howner, by simp only [hfound]⟩

theorem withChat_eq (id : Text) (next : Chat → Handler) :
    (withChat id userId next db).2 = db ∨
    ∃ chat, db.chat? chat._id = some chat ∧ chat.userId = userId ∧
      withChat id userId next db = next chat db := by
  unfold withChat
  cases castObjectId id with
  | none => exact .inl rfl
  | some id =>
    cases hfound : findOwnedWorkspaceChat db id userId with
    | none => exact .inl (by simp only [hfound])
    | some chat =>
      obtain ⟨hstored, howner⟩ := findOwnedWorkspaceChat_spec hfound
      exact .inr ⟨chat, hstored, howner, by simp only [hfound]⟩

theorem ensureMainBranch_none {project : Project} {db' : Database}
    (h : ensureMainBranch project db = (none, db')) : db' = db := by
  unfold ensureMainBranch at h
  cases hworkspace : project.workspaceId with
  | none =>
    simp only [hworkspace] at h
    exact (Prod.mk.inj h).2.symm
  | some workspaceId =>
    simp only [hworkspace] at h
    cases (Prod.mk.inj h).1

theorem withBranch_eq (project : Project) (branchId : Option ObjectId)
    (next : ProjectBranch → Handler) :
    (withBranch project branchId next db).2 = db ∨
    (∃ id branch, branchId = some id ∧ findActiveBranch db project id = some branch ∧
      withBranch project branchId next db = next branch db) ∨
    ∃ branch db', branchId = none ∧ ensureMainBranch project db = (some branch, db') ∧
      withBranch project branchId next db = next branch db' := by
  unfold withBranch
  cases branchId with
  | some id =>
    cases hfound : findActiveBranch db project id with
    | none => exact .inl (by simp only [hfound])
    | some branch => exact .inr (.inl ⟨id, branch, rfl, hfound, by simp only [hfound]⟩)
  | none =>
    cases hensure : ensureMainBranch project db with
    | mk branch db' =>
      cases branch with
      | none => exact .inl (ensureMainBranch_none hensure)
      | some branch => exact .inr (.inr ⟨branch, db', rfl, rfl, rfl⟩)

end Found

/-- The branches have different ids, which are all taken. -/
structure DistinctBranches (db : Database) : Prop where
  nodup : (db.branches.map docId).Nodup
  taken : ∀ branch ∈ db.branches, branch._id < db.nextId

/-- Workspaces, members, branches and ids may have been added, and nothing else. -/
structure Extends (db db' : Database) : Prop where
  chats : db'.chats = db.chats
  projects : db'.projects = db.projects
  branch? : ∀ id branch, db.branch? id = some branch → db'.branch? id = some branch
  distinct : DistinctBranches db → DistinctBranches db'
  nextId : db.nextId ≤ db'.nextId

namespace Extends

variable {db db' db'' : Database}

theorem refl : Extends db db := ⟨rfl, rfl, fun _ _ h => h, fun h => h, le_rfl⟩

theorem trans (h : Extends db db') (h' : Extends db' db'') : Extends db db'' where
  chats := h'.chats.trans h.chats
  projects := h'.projects.trans h.projects
  branch? id branch hbranch := h'.branch? id branch (h.branch? id branch hbranch)
  distinct hdistinct := h'.distinct (h.distinct hdistinct)
  nextId := h.nextId.trans h'.nextId

theorem chat? (h : Extends db db') (id : ObjectId) : db'.chat? id = db.chat? id := by
  rw [Database.chat?, h.chats, Database.chat?]

theorem project? (h : Extends db db') (id : ObjectId) : db'.project? id = db.project? id := by
  rw [Database.project?, h.projects, Database.project?]

/-- A new branch with the next id. -/
theorem insert (branch : ProjectBranch) (hid : branch._id = db.nextId) :
    Extends db { db with branches := db.branches ++ [branch], nextId := db.nextId + 1 } where
  chats := rfl
  projects := rfl
  branch? id found h := by
    rw [Database.branch?] at h ⊢
    rw [findById_append, h, Option.some_or]
  distinct h := by
    constructor
    · rw [List.map_append, List.nodup_append]
      refine ⟨h.nodup, List.nodup_cons.mpr ⟨List.not_mem_nil, List.nodup_nil⟩, ?_⟩
      rintro id hold id' hnew rfl
      obtain ⟨other, hother, hid'⟩ := List.mem_map.mp hold
      have htaken : other._id < db.nextId := h.taken other hother
      have hlast : id = branch._id := List.mem_singleton.mp hnew
      rw [docId_branch, hlast, hid] at hid'
      exact htaken.ne hid'
    · intro other hother
      rcases List.mem_append.mp hother with hold | hnew
      · exact Nat.lt_succ_of_lt (h.taken other hold)
      · rw [List.mem_singleton.mp hnew, hid]
        exact Nat.lt_succ_self _
  nextId := Nat.le_succ _

end Extends

section Services

variable {db : Database}

theorem ensureMainBranch_extends (project : Project) (db : Database) :
    Extends db (ensureMainBranch project db).2 := by
  unfold ensureMainBranch upsertMainBranch
  cases project.workspaceId with
  | none => exact .refl
  | some workspaceId =>
    cases mainBranch? db project._id with
    | none => exact .insert _ rfl
    | some branch => exact .refl

/-- The main branch belongs to the project, and is stored. -/
theorem ensureMainBranch_spec {project : Project} {branch : ProjectBranch} {db' : Database}
    (hdistinct : DistinctBranches db) (h : ensureMainBranch project db = (some branch, db')) :
    branch.projectId = project._id ∧ db'.branch? branch._id = some branch := by
  have hdistinct' := (ensureMainBranch_extends project db).distinct hdistinct
  rw [h] at hdistinct'
  unfold ensureMainBranch upsertMainBranch at h
  cases hworkspace : project.workspaceId with
  | none =>
    simp only [hworkspace] at h
    cases (Prod.mk.inj h).1
  | some workspaceId =>
    simp only [hworkspace] at h
    cases hmain : mainBranch? db project._id with
    | none =>
      simp only [hmain] at h
      obtain ⟨hbranch, hdb⟩ := Prod.mk.inj h
      cases hbranch
      refine ⟨rfl, findById_of_mem hdistinct'.nodup ?_⟩
      rw [← hdb]
      exact List.mem_append_right _ (List.mem_singleton_self _)
    | some found =>
      simp only [hmain] at h
      obtain ⟨hbranch, hdb⟩ := Prod.mk.inj h
      cases hbranch
      have hname := List.find?_some hmain
      simp only [Bool.and_eq_true, decide_eq_true_eq] at hname
      refine ⟨hname.1, findById_of_mem hdistinct'.nodup ?_⟩
      rw [← hdb]
      exact List.mem_of_find?_eq_some hmain

theorem findActiveBranch_spec {project : Project} {id : ObjectId} {branch : ProjectBranch}
    (h : findActiveBranch db project id = some branch) :
    branch.projectId = project._id ∧ branch._id = id ∧ db.branch? branch._id = some branch := by
  obtain ⟨hfound, hmatches⟩ := Option.filter_eq_some_iff.mp h
  simp only [Bool.and_eq_true, decide_eq_true_eq] at hmatches
  have hid : branch._id = id := docId_of_findById hfound
  exact ⟨hmatches.1.2, hid, hid.symm ▸ hfound⟩

theorem upsertMember_extends (member : WorkspaceMember) (db : Database) :
    Extends db (upsertMember member db) := by
  unfold upsertMember
  split_ifs
  · exact .refl
  · exact ⟨rfl, rfl, fun _ _ h => h, fun h => ⟨h.nodup, h.taken⟩, le_rfl⟩

theorem upsertDefaultWorkspace_extends (userId : ObjectId) (db : Database) :
    Extends db (upsertDefaultWorkspace userId db).2 := by
  unfold upsertDefaultWorkspace
  split
  · exact .refl
  · exact ⟨rfl, rfl, fun _ _ h => h,
      fun h => ⟨h.nodup, fun branch hb => Nat.lt_succ_of_lt (h.taken branch hb)⟩, Nat.le_succ _⟩

theorem ensureDefaultWorkspaceForUser_extends (userId : ObjectId) (db : Database) :
    Extends db (ensureDefaultWorkspaceForUser userId db).2 :=
  (upsertDefaultWorkspace_extends userId db).trans (upsertMember_extends _ _)

theorem insertBranch_extends (project : Project) (name : String) (snapshotId : Option ObjectId)
    (db : Database) : Extends db (insertBranch project name snapshotId db).2 := by
  unfold insertBranch
  cases project.workspaceId with
  | none => exact .refl
  | some workspaceId =>
    by_cases htaken : (db.branches.any fun b => b.projectId = project._id && b.name = name) = true
    · simp only [htaken, if_true]
      exact .refl
    · simp only [htaken]
      exact .insert _ rfl

theorem branchFrom_extends (project : Project) (name : String)
    (sourceSnapshotId : Option ObjectId) (db : Database) :
    Extends db (branchFrom project name sourceSnapshotId db).2 := by
  unfold branchFrom
  cases sourceSnapshotId with
  | none => exact insertBranch_extends project name none db
  | some id =>
    simp only
    split
    · exact .refl
    · exact insertBranch_extends project name _ db

theorem createProjectBranch_extends (project : Project) (name : String)
    (fromSnapshotId : Option ObjectId) (db : Database) :
    Extends db (createProjectBranch project name fromSnapshotId db).2 := by
  unfold createProjectBranch
  cases fromSnapshotId with
  | some id => exact branchFrom_extends project name (some id) db
  | none =>
    have hmain := ensureMainBranch_extends project db
    simp only
    cases hensure : ensureMainBranch project db with
    | mk main db' =>
      rw [hensure] at hmain
      cases main with
      | none => exact hmain
      | some main => exact hmain.trans (branchFrom_extends project name main.headSnapshotId db')

/-- What creating a project stores, when it gets that far. -/
theorem createProject_cases (call : Call) (name : Text) (description : Option Text)
    (settings : SettingsBody) (db : Database) :
    Extends db (createProject call name description settings db).2 ∨
      ∃ project db', Extends db db' ∧ project._id = db'.nextId ∧ project.chatIds = [] ∧
        (createProject call name description settings db).2 =
          (ensureMainBranch project
            { db' with projects := db'.projects ++ [project], nextId := db'.nextId + 1 }).2 := by
  have hworkspace := ensureDefaultWorkspaceForUser_extends call.userId db
  unfold createProject
  cases settingsSchema settings with
  | none => exact .inl .refl
  | some settings =>
    simp only
    split_ifs
    · exact .inl .refl
    · exact .inl .refl
    · refine .inl (hworkspace.trans ?_)
      exact ⟨rfl, rfl, fun _ _ h => h,
        fun h => ⟨h.nodup, fun branch hb => Nat.lt_succ_of_lt (h.taken branch hb)⟩, Nat.le_succ _⟩
    · exact .inr ⟨_, _, hworkspace, rfl, rfl, rfl⟩

end Services

end AppBuilder.Workspaces
