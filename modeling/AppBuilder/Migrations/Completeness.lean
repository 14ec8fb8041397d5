import AppBuilder.Migrations.WorkspaceBranches
import AppBuilder.Workspaces.ChatLinks

/-! What the migration fills in, what it leaves, and when its verification succeeds. -/
namespace AppBuilder.Migrations
open Agent Workspaces

/-- Every document is at its place, in relation to what it was. -/
def Each {α : Type} (R : α → α → Prop) (docs docs' : List α) : Prop :=
  ∃ f : α → α, docs' = docs.map f ∧ ∀ d, R d (f d)

namespace Each

variable {α : Type} {R S T : α → α → Prop} {docs docs' docs'' : List α}

theorem refl (hR : ∀ d, R d d) : Each R docs docs := ⟨id, (List.map_id docs).symm, hR⟩

theorem trans (hT : ∀ a b c, R a b → S b c → T a c) (h : Each R docs docs')
    (h' : Each S docs' docs'') : Each T docs docs'' := by
  obtain ⟨f, rfl, hf⟩ := h
  obtain ⟨g, rfl, hg⟩ := h'
  exact ⟨g ∘ f, List.map_map, fun d => hT _ _ _ (hf d) (hg (f d))⟩

theorem updateMany (hR : ∀ d, R d d) {filter : α → Bool} {update : α → α}
    (h : ∀ d, filter d = true → R d (update d)) :
    Each R docs (updateMany filter update docs) := by
  refine ⟨_, rfl, fun d => ?_⟩
  split_ifs with hd
  · exact h d hd
  · exact hR d

theorem mem (h : Each R docs docs') {d' : α} (hd : d' ∈ docs') : ∃ d ∈ docs, R d d' := by
  obtain ⟨f, rfl, hf⟩ := h
  obtain ⟨d, hmem, rfl⟩ := List.mem_map.mp hd
  exact ⟨d, hmem, hf d⟩

theorem mem_of (h : Each R docs docs') {d : α} (hd : d ∈ docs) : ∃ d' ∈ docs', R d d' := by
  obtain ⟨f, rfl, hf⟩ := h
  exact ⟨f d, List.mem_map_of_mem hd, hf d⟩

end Each

theorem updateMany_eq_self {α : Type} {filter : α → Bool} {update : α → α} {docs : List α}
    (h : ∀ d ∈ docs, filter d = false) : updateMany filter update docs = docs := by
  refine (List.map_congr_left fun d hd => ?_).trans (List.map_id docs)
  rw [if_neg]
  · rfl
  · rw [h d hd]
    exact Bool.false_ne_true

/-- A value that was there is still there. -/
def Stays {α : Type} (before after : Option α) : Prop := ∀ a, before = some a → after = some a

theorem Stays.rfl {α : Type} {a : Option α} : Stays a a := fun _ h => h

theorem Stays.trans {α : Type} {a b c : Option α} (h : Stays a b) (h' : Stays b c) : Stays a c :=
  fun x hx => h' x (h x hx)

theorem Stays.of_isNone {α : Type} {a b : Option α} (h : a.isNone = true) : Stays a b := by
  rintro x rfl
  cases h

theorem Stays.isSome {α : Type} {a b : Option α} (h : Stays a b) (ha : a.isSome) : b.isSome := by
  obtain ⟨x, hx⟩ := Option.isSome_iff_exists.mp ha
  rw [h x hx, Option.isSome_some]

/-- Only `workspaceId` and the timestamp may differ, and no workspace is replaced. -/
structure ProjectKept (p p' : Project) : Prop where
  rest : p' = { p with workspaceId := p'.workspaceId, updatedAt := p'.updatedAt }
  workspaceId : Stays p.workspaceId p'.workspaceId

structure ChatKept (ids : List ObjectId) (c c' : Chat) : Prop where
  rest : c' = { c with branchId := c'.branchId, updatedAt := c'.updatedAt }
  branchId : Stays c.branchId c'.branchId
  orphan : (∀ p ∈ ids, c.projectId ≠ some p) → c' = c

structure RunKept (ids : List ObjectId) (r r' : TimelineRun) : Prop where
  rest : r' = { r with
    workspaceId := r'.workspaceId
    branchId := r'.branchId
    baseHeadVersion := r'.baseHeadVersion }
  workspaceId : Stays r.workspaceId r'.workspaceId
  branchId : Stays r.branchId r'.branchId
  baseHeadVersion : Stays r.baseHeadVersion r'.baseHeadVersion
  orphan : r.projectId ∉ ids → r' = r

/-- The fields that had a value keep it, and documents without one of the projects `ids` are as
they were. -/
structure Kept (ids : List ObjectId) (db db' : Database) : Prop where
  users : db'.users = db.users
  workspaces : ∃ added, db'.workspaces = db.workspaces ++ added
  members : ∃ added, db'.members = db.members ++ added
  branches : ∃ added, db'.branches = db.branches ++ added
  projects : Each ProjectKept db.projects db'.projects
  chats : Each (ChatKept ids) db.chats db'.chats
  runs : Each (RunKept ids) db.runs db'.runs
  events : db'.events = db.events
  snapshots : db'.snapshots = db.snapshots

theorem ProjectKept.refl (p : Project) : ProjectKept p p := ⟨rfl, .rfl⟩

theorem ProjectKept.trans (a b c : Project) (h : ProjectKept a b) (h' : ProjectKept b c) :
    ProjectKept a c := by
  refine ⟨?_, h.workspaceId.trans h'.workspaceId⟩
  rw [h'.rest, h.rest]

section Documents

variable {ids : List ObjectId}

theorem ChatKept.refl (c : Chat) : ChatKept ids c c := ⟨rfl, .rfl, fun _ => rfl⟩

theorem ChatKept.projectId {c c' : Chat} (h : ChatKept ids c c') : c'.projectId = c.projectId := by
  rw [h.rest]

theorem ChatKept.trans (a b c : Chat) (h : ChatKept ids a b) (h' : ChatKept ids b c) :
    ChatKept ids a c := by
  refine ⟨?_, h.branchId.trans h'.branchId, fun hnot => ?_⟩
  · rw [h'.rest, h.rest]
  · have hb : b = a := h.orphan hnot
    subst hb
    exact h'.orphan hnot

theorem RunKept.refl (r : TimelineRun) : RunKept ids r r :=
  ⟨rfl, .rfl, .rfl, .rfl, fun _ => rfl⟩

theorem RunKept.projectId {r r' : TimelineRun} (h : RunKept ids r r') :
    r'.projectId = r.projectId := by
  rw [h.rest]

theorem RunKept.trans (a b c : TimelineRun) (h : RunKept ids a b) (h' : RunKept ids b c) :
    RunKept ids a c := by
  refine ⟨?_, h.workspaceId.trans h'.workspaceId, h.branchId.trans h'.branchId,
    h.baseHeadVersion.trans h'.baseHeadVersion, fun hnot => ?_⟩
  · rw [h'.rest, h.rest]
  · have hb : b = a := h.orphan hnot
    subst hb
    exact h'.orphan hnot

end Documents

namespace Kept

variable {ids ids' : List ObjectId} {db db' db'' : Database}

theorem refl : Kept ids db db where
  users := rfl
  workspaces := ⟨[], (List.append_nil _).symm⟩
  members := ⟨[], (List.append_nil _).symm⟩
  branches := ⟨[], (List.append_nil _).symm⟩
  projects := .refl .refl
  chats := .refl .refl
  runs := .refl .refl
  events := rfl
  snapshots := rfl

theorem append_trans {α : Type} {a b c : List α} (h : ∃ added, b = a ++ added)
    (h' : ∃ added, c = b ++ added) : ∃ added, c = a ++ added := by
  obtain ⟨x, rfl⟩ := h
  obtain ⟨y, rfl⟩ := h'
  exact ⟨x ++ y, List.append_assoc _ _ _⟩

theorem trans (h : Kept ids db db') (h' : Kept ids db' db'') : Kept ids db db'' where
  users := h'.users.trans h.users
  workspaces := append_trans h.workspaces h'.workspaces
  members := append_trans h.members h'.members
  branches := append_trans h.branches h'.branches
  projects := h.projects.trans ProjectKept.trans h'.projects
  chats := h.chats.trans ChatKept.trans h'.chats
  runs := h.runs.trans RunKept.trans h'.runs
  events := h'.events.trans h.events
  snapshots := h'.snapshots.trans h.snapshots

theorem mono (hsub : ids ⊆ ids') (h : Kept ids db db') : Kept ids' db db' where
  users := h.users
  workspaces := h.workspaces
  members := h.members
  branches := h.branches
  projects := h.projects
  chats := by
    obtain ⟨f, hf, hkept⟩ := h.chats
    exact ⟨f, hf, fun c => ⟨(hkept c).rest, (hkept c).branchId,
      fun hnot => (hkept c).orphan fun p hp => hnot p (hsub hp)⟩⟩
  runs := by
    obtain ⟨f, hf, hkept⟩ := h.runs
    exact ⟨f, hf, fun r => ⟨(hkept r).rest, (hkept r).workspaceId, (hkept r).branchId,
      (hkept r).baseHeadVersion, fun hnot => (hkept r).orphan fun hp => hnot (hsub hp)⟩⟩
  events := h.events
  snapshots := h.snapshots

theorem mainBranch (h : Kept ids db db') {p : ObjectId} {branch : Store.ProjectBranch}
    (hbranch : mainBranch? db p = some branch) : mainBranch? db' p = some branch := by
  obtain ⟨added, hadded⟩ := h.branches
  unfold mainBranch? at hbranch ⊢
  rw [hadded, List.find?_append, hbranch, Option.some_or]

end Kept

section Steps

variable (now : Time) (db : Database)

theorem setWorkspace_kept (workspaceId : ObjectId) (project : Project) :
    Kept [project._id] db (setWorkspace now workspaceId project db) := by
  unfold setWorkspace
  split_ifs
  · exact .refl
  · refine { (@Kept.refl [project._id] db) with
      projects := .updateMany .refl fun p hp => ?_ }
    simp only [Bool.and_eq_true] at hp
    exact ⟨rfl, .of_isNone hp.2⟩

theorem upsertMainBranch_kept (workspaceId projectId : ObjectId) (snapshot : Option ObjectId)
    (revision : ℕ) :
    Kept [projectId] db (upsertMainBranch workspaceId projectId snapshot revision db).2 := by
  unfold upsertMainBranch
  split
  · exact .refl
  · exact { (@Kept.refl [projectId] db) with branches := ⟨_, rfl⟩ }

theorem upsertMainBranch_found (workspaceId projectId : ObjectId) (snapshot : Option ObjectId)
    (revision : ℕ) :
    mainBranch? (upsertMainBranch workspaceId projectId snapshot revision db).2 projectId =
      some (upsertMainBranch workspaceId projectId snapshot revision db).1 := by
  unfold upsertMainBranch
  split
  · rename_i branch hfound
    exact hfound
  · rename_i hnone
    unfold mainBranch? at hnone ⊢
    rw [List.find?_append, hnone, Option.none_or, List.find?_singleton, if_pos]
    simp [newMainBranch]

theorem fillChats_kept (projectId branchId : ObjectId) :
    Kept [projectId] db (fillChats now projectId branchId db) := by
  refine { (@Kept.refl [projectId] db) with
    chats := .updateMany .refl fun c hc => ?_ }
  simp only [Bool.and_eq_true, decide_eq_true_eq] at hc
  exact ⟨rfl, .of_isNone hc.2, fun hnot => absurd hc.1 (hnot _ (List.mem_singleton_self _))⟩

theorem fillRunWorkspaces_kept (projectId workspaceId : ObjectId) :
    Kept [projectId] db (fillRunWorkspaces projectId workspaceId db) := by
  refine { (@Kept.refl [projectId] db) with
    runs := .updateMany .refl fun r hr => ?_ }
  simp only [Bool.and_eq_true, decide_eq_true_eq] at hr
  exact ⟨rfl, .of_isNone hr.2, .rfl, .rfl, fun hnot => absurd (List.mem_singleton.mpr hr.1) hnot⟩

theorem fillRunBranches_kept (projectId branchId : ObjectId) :
    Kept [projectId] db (fillRunBranches projectId branchId db) := by
  refine { (@Kept.refl [projectId] db) with
    runs := .updateMany .refl fun r hr => ?_ }
  simp only [Bool.and_eq_true, decide_eq_true_eq] at hr
  exact ⟨rfl, .rfl, .of_isNone hr.2, .rfl, fun hnot => absurd (List.mem_singleton.mpr hr.1) hnot⟩

theorem fillRunVersions_kept (projectId : ObjectId) :
    Kept [projectId] db (fillRunVersions projectId db) := by
  refine { (@Kept.refl [projectId] db) with
    runs := .updateMany .refl fun r hr => ?_ }
  simp only [Bool.and_eq_true, decide_eq_true_eq] at hr
  exact ⟨rfl, .rfl, .rfl, .of_isNone hr.2, fun hnot => absurd (List.mem_singleton.mpr hr.1) hnot⟩

end Steps

/-- Nothing of this project lacks a field, apart from the project itself. -/
structure Done (p : ObjectId) (db : Database) : Prop where
  branch : (mainBranch? db p).isSome
  chat : ∀ chat ∈ db.chats, chat.projectId = some p → chat.branchId.isSome
  run : ∀ run ∈ db.runs, run.projectId = p →
    run.workspaceId.isSome ∧ run.branchId.isSome ∧ run.baseHeadVersion.isSome

def Placed (p : ObjectId) (db : Database) : Prop :=
  ∀ project ∈ db.projects, project._id = p → project.workspaceId.isSome

section Progress

variable {ids : List ObjectId} {db db' : Database} {p : ObjectId}

theorem Done.keep (hdone : Done p db) (h : Kept ids db db') : Done p db' where
  branch := by
    obtain ⟨branch, hbranch⟩ := Option.isSome_iff_exists.mp hdone.branch
    rw [h.mainBranch hbranch, Option.isSome_some]
  chat chat' hchat' hp := by
    obtain ⟨chat, hchat, hkept⟩ := h.chats.mem hchat'
    exact hkept.branchId.isSome (hdone.chat chat hchat (hkept.projectId ▸ hp))
  run run' hrun' hp := by
    obtain ⟨run, hrun, hkept⟩ := h.runs.mem hrun'
    obtain ⟨hworkspace, hbranch, hversion⟩ := hdone.run run hrun (hkept.projectId ▸ hp)
    exact ⟨hkept.workspaceId.isSome hworkspace, hkept.branchId.isSome hbranch,
      hkept.baseHeadVersion.isSome hversion⟩

theorem ProjectKept.id {q q' : Project} (h : ProjectKept q q') : q'._id = q._id := by
  rw [h.rest]

theorem Placed.keep (hplaced : Placed p db) (h : Kept ids db db') : Placed p db' := by
  intro project' hproject' hp
  obtain ⟨project, hproject, hkept⟩ := h.projects.mem hproject'
  exact hkept.workspaceId.isSome (hplaced project hproject (hkept.id ▸ hp))

/-- What holds of updated documents and of those that were passed over holds of all. -/
theorem forall_updateMany {α : Type} {filter : α → Bool} {update : α → α} {docs : List α}
    {P : α → Prop} (hhit : ∀ d, filter d = true → P (update d))
    (hmiss : ∀ d, filter d = false → P d) : ∀ d ∈ updateMany filter update docs, P d := by
  intro d hd
  obtain ⟨old, -, rfl⟩ := List.mem_map.mp hd
  split_ifs with hold
  · exact hhit old hold
  · exact hmiss old (Bool.eq_false_iff.mpr hold)

theorem isSome_of_miss {α : Type} {b : Bool} {a : Option α} (h : (b && a.isNone) = false)
    (hb : b = true) : a.isSome := by
  cases a with
  | none => simp [hb] at h
  | some x => rfl

theorem migrateProject_kept (now : Time) (workspace : Workspace) (db : Database)
    (project : Project) : Kept [project._id] db (migrateProject now workspace db project) :=
  (setWorkspace_kept now db workspace._id project).trans <|
    (upsertMainBranch_kept _ _ _ _ _).trans <| (fillChats_kept now _ _ _).trans <|
      (fillRunWorkspaces_kept _ _ _).trans <| (fillRunBranches_kept _ _ _).trans
        (fillRunVersions_kept _ _)

/-- Once the main branch is there, the four updates fill in everything else. -/
theorem fill_done {now : Time} {branch : Store.ProjectBranch} {workspaceId : ObjectId}
    (hbranch : mainBranch? db p = some branch) :
    Done p (fillRunVersions p (fillRunBranches p branch._id
      (fillRunWorkspaces p workspaceId (fillChats now p branch._id db)))) where
  branch := by
    have hkept : Kept [p] db (fillRunVersions p (fillRunBranches p branch._id
        (fillRunWorkspaces p workspaceId (fillChats now p branch._id db)))) :=
      (fillChats_kept now _ _ _).trans <| (fillRunWorkspaces_kept _ _ _).trans <|
        (fillRunBranches_kept _ _ _).trans (fillRunVersions_kept _ _)
    rw [hkept.mainBranch hbranch, Option.isSome_some]
  chat := forall_updateMany (fun _ _ _ => rfl)
    fun _ hmiss hp => isSome_of_miss hmiss (decide_eq_true hp)
  run run₃ hrun₃ hp := by
    have hworkspaces : ∀ r ∈ (fillRunWorkspaces p workspaceId
        (fillChats now p branch._id db)).runs, r.projectId = p → r.workspaceId.isSome :=
      forall_updateMany (fun _ _ _ => rfl)
        fun _ hmiss hp => isSome_of_miss hmiss (decide_eq_true hp)
    have hbranches : ∀ r ∈ (fillRunBranches p branch._id (fillRunWorkspaces p workspaceId
        (fillChats now p branch._id db))).runs, r.projectId = p → r.branchId.isSome :=
      forall_updateMany (fun _ _ _ => rfl)
        fun _ hmiss hp => isSome_of_miss hmiss (decide_eq_true hp)
    have hversions : ∀ r ∈ (fillRunVersions p (fillRunBranches p branch._id
        (fillRunWorkspaces p workspaceId (fillChats now p branch._id db)))).runs,
        r.projectId = p → r.baseHeadVersion.isSome :=
      forall_updateMany (fun _ _ _ => rfl)
        fun _ hmiss hp => isSome_of_miss hmiss (decide_eq_true hp)
    obtain ⟨run₂, hrun₂, hkept₂⟩ := (fillRunVersions_kept _ p).runs.mem hrun₃
    obtain ⟨run₁, hrun₁, hkept₁⟩ := (fillRunBranches_kept _ p branch._id).runs.mem hrun₂
    have hp₂ : run₂.projectId = p := hkept₂.projectId.symm.trans hp
    have hp₁ : run₁.projectId = p := hkept₁.projectId.symm.trans hp₂
    exact ⟨hkept₂.workspaceId.isSome (hkept₁.workspaceId.isSome (hworkspaces run₁ hrun₁ hp₁)),
      hkept₂.branchId.isSome (hbranches run₂ hrun₂ hp₂), hversions run₃ hrun₃ hp⟩

theorem migrateProject_done (now : Time) (workspace : Workspace) (db : Database)
    (project : Project) : Done project._id (migrateProject now workspace db project) := by
  unfold migrateProject
  simp only
  have hfound := upsertMainBranch_found (setWorkspace now workspace._id project db)
    (project.workspaceId.getD workspace._id) project._id project.activeSnapshotId
    project.activeSnapshotRevision
  generalize upsertMainBranch (project.workspaceId.getD workspace._id) project._id
    project.activeSnapshotId project.activeSnapshotRevision
      (setWorkspace now workspace._id project db) = upserted at hfound ⊢
  obtain ⟨branch, db₁⟩ := upserted
  exact fill_done hfound

theorem migrateProject_placed (now : Time) (workspace : Workspace) (db : Database)
    {project : Project} (hnone : project.workspaceId = none) :
    Placed project._id (migrateProject now workspace db project) := by
  have hset : Placed project._id (setWorkspace now workspace._id project db) := by
    unfold setWorkspace
    rw [if_neg (by rw [hnone]; exact Bool.false_ne_true)]
    refine forall_updateMany (fun d _ _ => rfl) fun d hd hid => ?_
    exact isSome_of_miss hd (decide_eq_true hid)
  exact hset.keep <| (upsertMainBranch_kept _ _ _ _ _).trans <| (fillChats_kept now _ _ _).trans <|
    (fillRunWorkspaces_kept _ _ _).trans <| (fillRunBranches_kept _ _ _).trans
      (fillRunVersions_kept _ _)

/-- Where nothing is missing, the body of the loop changes nothing. -/
theorem migrateProject_eq_self (now : Time) (workspace : Workspace) {db : Database}
    {project : Project} (hdone : Done project._id db) (hplaced : project.workspaceId.isSome) :
    migrateProject now workspace db project = db := by
  obtain ⟨branch, hbranch⟩ := Option.isSome_iff_exists.mp hdone.branch
  have hset : setWorkspace now workspace._id project db = db := if_pos hplaced
  have hupsert : upsertMainBranch (project.workspaceId.getD workspace._id) project._id
      project.activeSnapshotId project.activeSnapshotRevision db = (branch, db) := by
    simp only [upsertMainBranch, hbranch]
  have hfilled : ∀ {α : Type} {a : Option α} {b : Bool}, (b = true → a.isSome) →
      (b && a.isNone) = false := by
    intro α a b h
    cases b with
    | false => rfl
    | true => simpa using h rfl
  have hchats : fillChats now project._id branch._id db = db := by
    unfold fillChats
    rw [updateMany_eq_self fun c hc =>
      hfilled fun hp => hdone.chat c hc (of_decide_eq_true hp)]
  have hworkspaces : fillRunWorkspaces project._id
      (project.workspaceId.getD workspace._id) db = db := by
    unfold fillRunWorkspaces
    rw [updateMany_eq_self fun r hr =>
      hfilled fun hp => (hdone.run r hr (of_decide_eq_true hp)).1]
  have hbranches : fillRunBranches project._id branch._id db = db := by
    unfold fillRunBranches
    rw [updateMany_eq_self fun r hr =>
      hfilled fun hp => (hdone.run r hr (of_decide_eq_true hp)).2.1]
  have hversions : fillRunVersions project._id db = db := by
    unfold fillRunVersions
    rw [updateMany_eq_self fun r hr =>
      hfilled fun hp => (hdone.run r hr (of_decide_eq_true hp)).2.2]
  simp only [migrateProject, hset, hupsert, hchats, hworkspaces, hbranches, hversions]

end Progress

section Loops

variable {now : Time} {workspace : Workspace}

theorem migrateProjects_kept (projects : List Project) (db : Database) :
    Kept (projects.map (·._id)) db (projects.foldl (migrateProject now workspace) db) := by
  induction projects generalizing db with
  | nil => exact .refl
  | cons project projects ih =>
    have hfirst := migrateProject_kept now workspace db project
    exact (hfirst.mono (by simp)).trans ((ih _).mono (by simp))

theorem migrateProjects_done (projects : List Project) (db : Database) :
    ∀ project ∈ projects, Done project._id (projects.foldl (migrateProject now workspace) db) ∧
      (project.workspaceId = none →
        Placed project._id (projects.foldl (migrateProject now workspace) db)) := by
  induction projects generalizing db with
  | nil => exact fun _ h => nomatch h
  | cons first projects ih =>
    intro project hproject
    have hrest := (@migrateProjects_kept now workspace) projects
      (migrateProject now workspace db first)
    rcases List.mem_cons.mp hproject with rfl | hproject
    · exact ⟨(migrateProject_done now workspace db project).keep hrest,
        fun hnone => (migrateProject_placed now workspace db hnone).keep hrest⟩
    · exact ih _ project hproject

theorem migrateProjects_eq_self {db : Database} (projects : List Project)
    (h : ∀ project ∈ projects, Done project._id db ∧ project.workspaceId.isSome) :
    projects.foldl (migrateProject now workspace) db = db := by
  induction projects with
  | nil => rfl
  | cons first projects ih =>
    obtain ⟨hdone, hplaced⟩ := h first (List.mem_cons_self ..)
    rw [List.foldl_cons, migrateProject_eq_self now workspace hdone hplaced]
    exact ih fun project hproject => h project (List.mem_cons_of_mem _ hproject)

def IsMember (db : Database) (workspaceId userId : ObjectId) : Prop :=
  (db.members.any fun m => m.workspaceId = workspaceId && m.userId = userId) = true

theorem IsMember.keep {ids : List ObjectId} {db db' : Database} {w u : ObjectId}
    (hmember : IsMember db w u) (h : Kept ids db db') : IsMember db' w u := by
  obtain ⟨added, hadded⟩ := h.members
  unfold IsMember at hmember ⊢
  rw [hadded, List.any_append, hmember, Bool.true_or]

theorem upsertMember_kept (member : WorkspaceMember) (db : Database) :
    Kept [] db (upsertMember member db) := by
  unfold upsertMember
  split_ifs
  · exact .refl
  · exact { (@Kept.refl [] db) with members := ⟨_, rfl⟩ }

theorem upsertMember_member (member : WorkspaceMember) (db : Database) :
    IsMember (upsertMember member db) member.workspaceId member.userId := by
  unfold upsertMember
  split_ifs with hmember
  · exact hmember
  · unfold IsMember
    simp

theorem migrateMembers_kept (owner : User) (users : List User) (db : Database) :
    Kept [] db (users.foldl (migrateMember owner workspace) db) := by
  induction users generalizing db with
  | nil => exact .refl
  | cons user users ih => exact (upsertMember_kept _ db).trans (ih _)

theorem migrateMembers_member (owner : User) (users : List User) (db : Database) :
    ∀ user ∈ users,
      IsMember (users.foldl (migrateMember owner workspace) db) workspace._id user._id := by
  induction users generalizing db with
  | nil => exact fun _ h => nomatch h
  | cons first users ih =>
    intro user huser
    rcases List.mem_cons.mp huser with rfl | huser
    · exact (upsertMember_member ⟨workspace._id, user._id, _⟩ db).keep
        (migrateMembers_kept owner users _)
    · exact ih _ user huser

theorem migrateMembers_eq_self {db : Database} (owner : User) (users : List User)
    (h : ∀ user ∈ users, IsMember db workspace._id user._id) :
    users.foldl (migrateMember owner workspace) db = db := by
  induction users with
  | nil => rfl
  | cons first users ih =>
    have hfirst : migrateMember owner workspace db first = db :=
      if_pos (h first (List.mem_cons_self ..))
    rw [List.foldl_cons, hfirst]
    exact ih fun user huser => h user (List.mem_cons_of_mem _ huser)

theorem upsertDefaultWorkspace_kept (userId : ObjectId) (db : Database) :
    Kept [] db (upsertDefaultWorkspace userId db).2 := by
  unfold upsertDefaultWorkspace
  split
  · exact .refl
  · exact { (@Kept.refl [] db) with workspaces := ⟨_, rfl⟩ }

/-- The workspace is found by its slug from now on. -/
theorem upsertDefaultWorkspace_found {ids : List ObjectId} {userId : ObjectId} {db db' : Database}
    (h : Kept ids (upsertDefaultWorkspace userId db).2 db') :
    db'.workspaces.find? (·.slug = DEFAULT_WORKSPACE_SLUG) =
      some (upsertDefaultWorkspace userId db).1 := by
  obtain ⟨added, hadded⟩ := h.workspaces
  have hfound : (upsertDefaultWorkspace userId db).2.workspaces.find?
      (·.slug = DEFAULT_WORKSPACE_SLUG) = some (upsertDefaultWorkspace userId db).1 := by
    unfold upsertDefaultWorkspace
    split
    · rename_i workspace hworkspace
      exact hworkspace
    · rename_i hnone
      rw [List.find?_append, hnone, Option.none_or, List.find?_singleton, if_pos]
      exact decide_eq_true rfl
  rw [hadded, List.find?_append, hfound, Option.some_or]

end Loops

/-- Documents that miss a field name a project that exists. -/
structure NoOrphans (db : Database) : Prop where
  chats : ∀ chat ∈ db.chats, ∀ p, chat.projectId = some p → chat.branchId = none →
    ∃ project ∈ db.projects, project._id = p
  runs : ∀ run ∈ db.runs,
    run.workspaceId = none ∨ run.branchId = none ∨ run.baseHeadVersion = none →
    ∃ project ∈ db.projects, project._id = run.projectId

/-- What the verification counts is all there. -/
structure Complete (db : Database) : Prop where
  projects : ∀ project ∈ db.projects, project.workspaceId.isSome
  chats : ∀ chat ∈ db.chats, chat.projectId.isSome → chat.branchId.isSome
  runs : ∀ run ∈ db.runs,
    run.workspaceId.isSome ∧ run.branchId.isSome ∧ run.baseHeadVersion.isSome

theorem countP_isNone {α β : Type} (docs : List α) (field : α → Option β) :
    docs.countP (fun d => (field d).isNone) = 0 ↔ ∀ d ∈ docs, (field d).isSome := by
  rw [List.countP_eq_zero]
  refine forall₂_congr fun d _ => ?_
  cases field d <;> simp

theorem verify_iff (db : Database) :
    verifyWorkspaceBranchMigration db = .ok () ↔ Complete db := by
  have hverify : verifyWorkspaceBranchMigration db = .ok () ↔
      migrationCounts db = ⟨0, 0, 0, 0, 0⟩ := by
    unfold verifyWorkspaceBranchMigration
    simp only
    split_ifs with h
    · exact iff_of_true rfl h
    · exact iff_of_false nofun h
  have hchats : (db.chats.countP fun c => c.projectId.isSome && c.branchId.isNone) = 0 ↔
      ∀ chat ∈ db.chats, chat.projectId.isSome → chat.branchId.isSome := by
    rw [List.countP_eq_zero]
    refine forall₂_congr fun c _ => ?_
    cases c.projectId <;> cases c.branchId <;> simp
  rw [hverify, migrationCounts, MigrationCounts.mk.injEq, countP_isNone, hchats, countP_isNone,
    countP_isNone, countP_isNone]
  constructor
  · rintro ⟨hprojects, hchats, hworkspaces, hbranches, hversions⟩
    exact ⟨hprojects, hchats, fun r hr => ⟨hworkspaces r hr, hbranches r hr, hversions r hr⟩⟩
  · intro h
    exact ⟨h.projects, h.chats, fun r hr => (h.runs r hr).1, fun r hr => (h.runs r hr).2.1,
      fun r hr => (h.runs r hr).2.2⟩

/-- The database in which the migration reads the projects. -/
def beforeProjects (owner : User) (users : List User) (db : Database) : Database :=
  (owner :: users).foldl (migrateMember owner (upsertDefaultWorkspace owner._id db).1)
    (upsertDefaultWorkspace owner._id db).2

section Migration

variable {now : Time} {db : Database} {owner : User} {users : List User}

theorem migrate_eq (husers : db.users.mergeSort earliestFirst = owner :: users) :
    migrateWorkspaceBranches now db = (beforeProjects owner users db).projects.foldl
      (migrateProject now (upsertDefaultWorkspace owner._id db).1)
      (beforeProjects owner users db) := by
  unfold migrateWorkspaceBranches
  rw [husers]
  rfl

theorem beforeProjects_kept : Kept [] db (beforeProjects owner users db) :=
  (upsertDefaultWorkspace_kept _ _).trans (migrateMembers_kept _ _ _)

theorem Kept.ids {ids : List ObjectId} {db db' : Database} (h : Kept ids db db') :
    db'.projects.map (·._id) = db.projects.map (·._id) := by
  obtain ⟨f, hf, hkept⟩ := h.projects
  rw [hf, List.map_map]
  exact List.map_congr_left fun p _ => (hkept p).id

theorem projects_kept : Kept (db.projects.map (·._id)) (beforeProjects owner users db)
    ((beforeProjects owner users db).projects.foldl
      (migrateProject now (upsertDefaultWorkspace owner._id db).1)
      (beforeProjects owner users db)) := by
  have h := (@migrateProjects_kept now ((upsertDefaultWorkspace owner._id db).1))
    (beforeProjects owner users db).projects (beforeProjects owner users db)
  rwa [beforeProjects_kept.ids] at h

variable (husers : db.users.mergeSort earliestFirst = owner :: users)
include husers

theorem migrate_kept :
    Kept (db.projects.map (·._id)) db (migrateWorkspaceBranches now db) := by
  rw [migrate_eq husers]
  exact (beforeProjects_kept.mono (List.nil_subset _)).trans projects_kept

theorem migrate_done {p : ObjectId} (hp : p ∈ db.projects.map (·._id)) :
    Done p (migrateWorkspaceBranches now db) := by
  rw [migrate_eq husers]
  rw [← (@beforeProjects_kept _ owner users).ids] at hp
  obtain ⟨project, hproject, rfl⟩ := List.mem_map.mp hp
  exact (migrateProjects_done _ _ project hproject).1

theorem migrate_placed : ∀ project ∈ (migrateWorkspaceBranches now db).projects,
    project.workspaceId.isSome := by
  rw [migrate_eq husers]
  intro project₂ hproject₂
  obtain ⟨project, hproject, hkept⟩ := projects_kept.projects.mem hproject₂
  cases hworkspace : project.workspaceId with
  | some w => exact hkept.workspaceId.isSome (by rw [hworkspace, Option.isSome_some])
  | none =>
    exact (migrateProjects_done _ _ project hproject).2 hworkspace project₂ hproject₂ hkept.id

/-- A second run finds nothing to fill in. -/
theorem migrate_again (later : Time) :
    migrateWorkspaceBranches later (migrateWorkspaceBranches now db) =
      migrateWorkspaceBranches now db := by
  have hkept := (@migrate_kept now) husers
  have hplaced := (@migrate_placed now) husers
  have hdone := fun p => @migrate_done now _ _ _ husers p
  have hmembers : ∀ user ∈ owner :: users, IsMember (migrateWorkspaceBranches now db)
      (upsertDefaultWorkspace owner._id db).1._id user._id := by
    rw [migrate_eq husers]
    exact fun user huser =>
      (migrateMembers_member owner (owner :: users) _ user huser).keep projects_kept
  have hworkspace : upsertDefaultWorkspace owner._id (migrateWorkspaceBranches now db) =
      ((upsertDefaultWorkspace owner._id db).1, migrateWorkspaceBranches now db) := by
    have hmembersKept : Kept [] (upsertDefaultWorkspace owner._id db).2
        (beforeProjects owner users db) := migrateMembers_kept owner (owner :: users) _
    have hfound := upsertDefaultWorkspace_found
      ((hmembersKept.mono (List.nil_subset _)).trans (@projects_kept now _ _ _))
    rw [← migrate_eq husers] at hfound
    generalize migrateWorkspaceBranches now db = after at hfound ⊢
    unfold upsertDefaultWorkspace at hfound ⊢
    simp only [hfound]
  generalize migrateWorkspaceBranches now db = after at *
  have husers' : after.users.mergeSort earliestFirst = owner :: users := by
    rw [hkept.users]
    exact husers
  have hbefore : beforeProjects owner users after = after := by
    unfold beforeProjects
    rw [hworkspace]
    exact migrateMembers_eq_self owner (owner :: users) hmembers
  rw [migrate_eq husers', hbefore]
  refine migrateProjects_eq_self _ fun project hproject => ⟨hdone _ ?_, hplaced project hproject⟩
  rw [← hkept.ids]
  exact List.mem_map_of_mem hproject

theorem migrate_complete_iff : Complete (migrateWorkspaceBranches now db) ↔ NoOrphans db := by
  have hkept := (@migrate_kept now) husers
  have hplaced := (@migrate_placed now) husers
  have hdone := fun p => @migrate_done now _ _ _ husers p
  generalize migrateWorkspaceBranches now db = after at *
  constructor
  · intro hcomplete
    constructor
    · intro chat hchat p hp hnone
      obtain ⟨chat', hchat', hchanged⟩ := hkept.chats.mem_of hchat
      by_contra hmissing
      have hsame : chat' = chat := by
        refine hchanged.orphan fun q hq hchatq => hmissing ?_
        obtain ⟨project, hproject, rfl⟩ := List.mem_map.mp hq
        exact ⟨project, hproject, Option.some.inj (hchatq.symm.trans hp)⟩
      subst hsame
      have hbranch := hcomplete.chats chat' hchat' (by rw [hp, Option.isSome_some])
      rw [hnone] at hbranch
      cases hbranch
    · intro run hrun hnone
      obtain ⟨run', hrun', hchanged⟩ := hkept.runs.mem_of hrun
      by_contra hmissing
      have hsame : run' = run := by
        refine hchanged.orphan fun hq => hmissing ?_
        obtain ⟨project, hproject, hid⟩ := List.mem_map.mp hq
        exact ⟨project, hproject, hid⟩
      subst hsame
      obtain ⟨hworkspace, hbranch, hversion⟩ := hcomplete.runs run' hrun'
      rcases hnone with hnone | hnone | hnone
      · rw [hnone] at hworkspace
        cases hworkspace
      · rw [hnone] at hbranch
        cases hbranch
      · rw [hnone] at hversion
        cases hversion
  · intro hfree
    refine ⟨hplaced, fun chat' hchat' hsome => ?_, fun run' hrun' => ?_⟩
    · obtain ⟨chat, hchat, hchanged⟩ := hkept.chats.mem hchat'
      obtain ⟨p, hp⟩ := Option.isSome_iff_exists.mp hsome
      cases hbranch : chat.branchId with
      | some b => exact hchanged.branchId.isSome (by rw [hbranch, Option.isSome_some])
      | none =>
        obtain ⟨project, hproject, rfl⟩ :=
          hfree.chats chat hchat p (hchanged.projectId ▸ hp) hbranch
        exact (hdone _ (List.mem_map_of_mem hproject)).chat chat' hchat' hp
    · obtain ⟨run, hrun, hchanged⟩ := hkept.runs.mem hrun'
      by_cases hnone : run.workspaceId = none ∨ run.branchId = none ∨ run.baseHeadVersion = none
      · obtain ⟨project, hproject, hid⟩ := hfree.runs run hrun hnone
        exact (hdone _ (List.mem_map_of_mem hproject)).run run' hrun'
          (hchanged.projectId.trans hid.symm)
      · simp only [not_or, ← ne_eq, Option.ne_none_iff_isSome] at hnone
        exact ⟨hchanged.workspaceId.isSome hnone.1, hchanged.branchId.isSome hnone.2.1,
          hchanged.baseHeadVersion.isSome hnone.2.2⟩

end Migration

/-- The verification succeeds, a second run of the migration changes nothing and every field that
had a value keeps it, exactly when no document that misses a field has lost its project. -/
theorem migration_correct_iff (now later : Time) (db : Database) (husers : db.users ≠ []) :
    (verifyWorkspaceBranchMigration (migrateWorkspaceBranches now db) = .ok () ∧
      migrateWorkspaceBranches later (migrateWorkspaceBranches now db) =
        migrateWorkspaceBranches now db ∧
      Kept (db.projects.map (·._id)) db (migrateWorkspaceBranches now db)) ↔ NoOrphans db := by
  obtain ⟨owner, users, hsorted⟩ : ∃ owner users,
      db.users.mergeSort earliestFirst = owner :: users := by
    refine List.exists_cons_of_ne_nil fun hnil => husers ?_
    exact (hnil ▸ List.mergeSort_perm db.users earliestFirst).nil_eq.symm
  rw [verify_iff, migrate_complete_iff hsorted]
  exact ⟨fun h => h.1, fun h => ⟨h, migrate_again hsorted later, migrate_kept hsorted⟩⟩

/-- A run that was created before there were workspaces and branches. -/
def legacyRun : TimelineRun where
  _id := 7
  userId := 1
  workspaceId := none
  projectId := 3
  branchId := none
  chatId := some 5
  prompt := "Legacy run"
  status := .completed
  mode := .create
  baseSnapshotId := none
  baseSnapshotRevision := 3
  baseHeadVersion := none
  resultSnapshotId := none
  retryOfRunId := none
  validationCandidateId := none
  retryable := false
  attempt := 0
  maxRepairAttempts := 2
  error := none
  usage := none
  startedAt := none
  completedAt := none
  attachments := []
  modelId := none
  modelProvider := none
  model := "legacy-model"
  createdAt := 0

def legacyProject (workspaceId : Option ObjectId) : Project where
  _id := 3
  workspaceId := workspaceId
  userId := 1
  name := "Legacy project".toList
  description := none
  chatIds := []
  activeSnapshotId := none
  activeSnapshotRevision := 3
  settings := ⟨.react, .tailwind, .shadcn, none⟩
  updatedAt := 0

def legacyDatabase (workspaceId : Option ObjectId) : Database :=
  { Database.empty with
    users := [⟨1, 0⟩]
    members := [⟨9, 1, .owner⟩]
    projects := [legacyProject workspaceId]
    chats := [⟨5, 1, some 3, none, "Legacy chat".toList, [], 0, 0⟩]
    runs := [legacyRun]
    nextId := 10 }

theorem legacyDatabase_migrated :
    verifyWorkspaceBranchMigration (migrateWorkspaceBranches 1 (legacyDatabase none)) = .ok () ∧
      migrateWorkspaceBranches 2 (migrateWorkspaceBranches 1 (legacyDatabase none)) =
        migrateWorkspaceBranches 1 (legacyDatabase none) ∧
      Kept [3] (legacyDatabase none) (migrateWorkspaceBranches 1 (legacyDatabase none)) := by
  refine (migration_correct_iff 1 2 (legacyDatabase none) (by decide)).mpr ⟨?_, ?_⟩
  · intro chat hchat p hp _
    rw [List.mem_singleton.mp hchat] at hp
    exact ⟨legacyProject none, List.mem_singleton_self _, Option.some.inj hp⟩
  · intro run hrun _
    rw [List.mem_singleton.mp hrun]
    exact ⟨legacyProject none, List.mem_singleton_self _, rfl⟩

/-- The project of the run is deleted by its owner, and the run stays as it was. -/
theorem orphaned_run_not_verified :
    ¬ (verifyWorkspaceBranchMigration (migrateWorkspaceBranches 1
        (after ownerCall (.deleteProject (toHexString 3)) (legacyDatabase (some 9)))) = .ok () ∧
      migrateWorkspaceBranches 2 (migrateWorkspaceBranches 1
        (after ownerCall (.deleteProject (toHexString 3)) (legacyDatabase (some 9)))) =
          migrateWorkspaceBranches 1
            (after ownerCall (.deleteProject (toHexString 3)) (legacyDatabase (some 9)))) := by
  rintro ⟨hverified, -⟩
  have hdeleted : after ownerCall (.deleteProject (toHexString 3)) (legacyDatabase (some 9)) =
      { legacyDatabase (some 9) with
        projects := []
        chats := [⟨5, 1, none, none, "Legacy chat".toList, [], 0, 5⟩] } := by
    decide
  rw [hdeleted, verify_iff, migrate_complete_iff (List.mergeSort_singleton _)] at hverified
  obtain ⟨project, hproject, -⟩ :=
    hverified.runs legacyRun (List.mem_singleton_self _) (.inl rfl)
  cases hproject

end AppBuilder.Migrations
