import AppBuilder.Workspaces.RouteLaws

/-! The link between chats and projects, which is stored on both sides, over every sequence of
requests. -/
namespace AppBuilder.Workspaces
open Agent Store Encoding

/-- A chat has a `projectId` exactly when the project lists it, and its branch is of the project. -/
structure Linked (db : Database) : Prop where
  listed : ∀ c chat p, db.chat? c = some chat →
    (chat.projectId = some p ↔ ∃ project, db.project? p = some project ∧ c ∈ project.chatIds)
  branch : ∀ c chat b, db.chat? c = some chat → chat.branchId = some b →
    ∃ branch, db.branch? b = some branch ∧ chat.projectId = some branch.projectId

/-- What the requests preserve besides: ids are never used twice, a chat of a project has a
branch, and every chat can be saved. -/
structure Consistent (db : Database) : Prop extends Linked db where
  branchId : ∀ c chat, db.chat? c = some chat → chat.projectId.isSome → chat.branchId.isSome
  title : ∀ c chat, db.chat? c = some chat → chat.title ≠ []
  chatTaken : ∀ c chat, db.chat? c = some chat → c < db.nextId
  projectTaken : ∀ p project, db.project? p = some project → p < db.nextId
  listedTaken : ∀ p project, db.project? p = some project → ∀ c ∈ project.chatIds, c < db.nextId
  branches : DistinctBranches db

namespace Consistent

variable {db db' : Database}

theorem empty : Consistent Database.empty where
  listed _ _ _ h := nomatch h
  branch _ _ _ h := nomatch h
  branchId _ _ h := nomatch h
  title _ _ h := nomatch h
  chatTaken _ _ h := nomatch h
  projectTaken _ _ h := nomatch h
  listedTaken _ _ h := nomatch h
  branches := ⟨List.nodup_nil, fun _ h => nomatch h⟩

/-- Changes that leave every link as it is; chats may go. -/
structure KeepsLinks (db db' : Database) : Prop where
  chat : ∀ c chat', db'.chat? c = some chat' → ∃ chat, db.chat? c = some chat ∧
    chat'.projectId = chat.projectId ∧ chat'.branchId = chat.branchId ∧
    (chat.title ≠ [] → chat'.title ≠ [])
  project : ∀ p, (db'.project? p).map (·.chatIds) = (db.project? p).map (·.chatIds)
  branch : ∀ b branch, db.branch? b = some branch →
    ∃ branch', db'.branch? b = some branch' ∧ branch'.projectId = branch.projectId
  branches : DistinctBranches db → DistinctBranches db'
  nextId : db.nextId ≤ db'.nextId

theorem KeepsLinks.listed_iff (h : KeepsLinks db db') (p c : ObjectId) :
    (∃ project, db'.project? p = some project ∧ c ∈ project.chatIds) ↔
      ∃ project, db.project? p = some project ∧ c ∈ project.chatIds := by
  have hview : ∀ db : Database,
      (∃ project, db.project? p = some project ∧ c ∈ project.chatIds) ↔
        ∃ ids, (db.project? p).map (·.chatIds) = some ids ∧ c ∈ ids := by
    intro db
    constructor
    · rintro ⟨project, hproject, hc⟩
      exact ⟨_, by rw [hproject, Option.map_some], hc⟩
    · rintro ⟨ids, hids, hc⟩
      obtain ⟨project, hproject, rfl⟩ := Option.map_eq_some_iff.mp hids
      exact ⟨project, hproject, hc⟩
  rw [hview, hview, h.project]

theorem KeepsLinks.project_of (h : KeepsLinks db db') {p : ObjectId} {project' : Project}
    (hproject : db'.project? p = some project') :
    ∃ project, db.project? p = some project ∧ project.chatIds = project'.chatIds := by
  have hids := h.project p
  rw [hproject, Option.map_some] at hids
  exact Option.map_eq_some_iff.mp hids.symm

theorem keep (hdb : Consistent db) (h : KeepsLinks db db') : Consistent db' where
  listed c chat' p hchat := by
    obtain ⟨chat, hold, hproject, -⟩ := h.chat c chat' hchat
    rw [hproject, h.listed_iff]
    exact hdb.listed c chat p hold
  branch c chat' b hchat hb := by
    obtain ⟨chat, hold, hproject, hbranch, -⟩ := h.chat c chat' hchat
    obtain ⟨branch, hstored, hof⟩ := hdb.branch c chat b hold (hbranch ▸ hb)
    obtain ⟨branch', hstored', hprojectId⟩ := h.branch b branch hstored
    exact ⟨branch', hstored', by rw [hproject, hof, hprojectId]⟩
  branchId c chat' hchat hsome := by
    obtain ⟨chat, hold, hproject, hbranch, -⟩ := h.chat c chat' hchat
    rw [hbranch]
    exact hdb.branchId c chat hold (hproject ▸ hsome)
  title c chat' hchat := by
    obtain ⟨chat, hold, -, -, htitle⟩ := h.chat c chat' hchat
    exact htitle (hdb.title c chat hold)
  chatTaken c chat' hchat := by
    obtain ⟨chat, hold, -⟩ := h.chat c chat' hchat
    exact (hdb.chatTaken c chat hold).trans_le h.nextId
  projectTaken p project' hproject := by
    obtain ⟨project, hold, -⟩ := h.project_of hproject
    exact (hdb.projectTaken p project hold).trans_le h.nextId
  listedTaken p project' hproject c hc := by
    obtain ⟨project, hold, hids⟩ := h.project_of hproject
    exact (hdb.listedTaken p project hold c (hids ▸ hc)).trans_le h.nextId
  branches := h.branches hdb.branches

theorem KeepsLinks.of_extends (h : Extends db db') : KeepsLinks db db' where
  chat c chat' hchat := ⟨chat', (h.chat? c) ▸ hchat, rfl, rfl, fun ht => ht⟩
  project p := by rw [h.project?]
  branch b branch hbranch := ⟨branch, h.branch? b branch hbranch, rfl⟩
  branches := h.distinct
  nextId := h.nextId

theorem extend (hdb : Consistent db) (h : Extends db db') : Consistent db' :=
  hdb.keep (.of_extends h)

theorem modifyProject (hdb : Consistent db) (p : ObjectId) {f : Project → Project}
    (hid : ∀ project, project._id = p → (f project)._id = p)
    (hids : ∀ project, db.project? p = some project → (f project).chatIds = project.chatIds) :
    Consistent { db with projects := modifyById db.projects p f } := by
  refine hdb.keep ⟨fun c chat h => ⟨chat, h, rfl, rfl, fun ht => ht⟩, fun q => ?_,
    fun b branch h => ⟨branch, h, rfl⟩, fun h => ⟨h.nodup, h.taken⟩, le_rfl⟩
  rw [Database.project?, findById_modifyById_of _ _ _ _ hid]
  split_ifs with hq
  · subst hq
    rw [Option.map_map]
    refine Option.map_congr fun project hproject => ?_
    exact hids project hproject
  · rfl

theorem modifyChat (hdb : Consistent db) (c : ObjectId) {f : Chat → Chat}
    (hid : ∀ chat, chat._id = c → (f chat)._id = c)
    (hf : ∀ chat, db.chat? c = some chat → (f chat).projectId = chat.projectId ∧
      (f chat).branchId = chat.branchId ∧ (f chat).title ≠ []) :
    Consistent { db with chats := modifyById db.chats c f } := by
  refine hdb.keep ⟨fun c' chat' h => ?_, fun q => rfl,
    fun b branch h => ⟨branch, h, rfl⟩, fun h => ⟨h.nodup, h.taken⟩, le_rfl⟩
  rw [Database.chat?, findById_modifyById_of _ _ _ _ hid] at h
  split_ifs at h with hc
  · subst hc
    obtain ⟨chat, hchat, rfl⟩ := Option.map_eq_some_iff.mp h
    obtain ⟨hproject, hbranch, htitle⟩ := hf chat hchat
    exact ⟨chat, hchat, hproject, hbranch, fun _ => htitle⟩
  · exact ⟨chat', h, rfl, rfl, fun ht => ht⟩

theorem deleteChat (hdb : Consistent db) (c : ObjectId) :
    Consistent { db with chats := deleteById db.chats c } := by
  refine hdb.keep ⟨fun c' chat' h => ?_, fun q => rfl,
    fun b branch h => ⟨branch, h, rfl⟩, fun h => ⟨h.nodup, h.taken⟩, le_rfl⟩
  rw [Database.chat?, findById_deleteById] at h
  split_ifs at h with hc
  exact ⟨chat', h, rfl, rfl, fun ht => ht⟩

theorem moveHead (hdb : Consistent db) (b : ObjectId) {f : ProjectBranch → ProjectBranch}
    (hid : ∀ branch, (f branch)._id = branch._id)
    (hf : ∀ branch, (f branch).projectId = branch.projectId) :
    Consistent { db with branches := modifyById db.branches b f } := by
  have hids : (modifyById db.branches b f).map docId = db.branches.map docId := by
    rw [modifyById, List.map_map]
    refine List.map_congr_left fun branch _ => ?_
    simp only [Function.comp]
    split_ifs
    · exact hid branch
    · rfl
  refine hdb.keep ⟨fun c chat h => ⟨chat, h, rfl, rfl, fun ht => ht⟩, fun q => rfl,
    fun b' branch h => ?_, fun h => ⟨hids.symm ▸ h.nodup, fun branch hb => ?_⟩, le_rfl⟩
  · rw [Database.branch?, findById_modifyById _ _ _ _ hid]
    rw [Database.branch?] at h
    split_ifs
    · exact ⟨f branch, by rw [h, Option.map_some], hf branch⟩
    · exact ⟨branch, h, rfl⟩
  · obtain ⟨old, hold, rfl⟩ := List.mem_map.mp hb
    have htaken := h.taken old hold
    split_ifs
    · rw [hid]
      exact htaken
    · exact htaken

theorem insertProject (hdb : Consistent db) {project : Project} (hid : project._id = db.nextId)
    (hids : project.chatIds = []) :
    Consistent { db with projects := db.projects ++ [project], nextId := db.nextId + 1 } := by
  have hfind : ∀ p, Database.project?
      { db with projects := db.projects ++ [project], nextId := db.nextId + 1 } p =
        (db.project? p).or (if project._id = p then some project else none) :=
    findById_append _ _
  have hold : ∀ p found, Database.project?
      { db with projects := db.projects ++ [project], nextId := db.nextId + 1 } p = some found →
      db.project? p = some found ∨ found = project ∧ p = db.nextId := by
    intro p found h
    rw [hfind] at h
    rcases Option.or_eq_some_iff.mp h with h | ⟨-, h⟩
    · exact .inl h
    · split_ifs at h with hp
      cases h
      exact .inr ⟨rfl, hp.symm.trans hid⟩
  refine ⟨⟨fun c chat p hchat => (hdb.listed c chat p hchat).trans ⟨?_, ?_⟩, hdb.branch⟩,
    hdb.branchId, hdb.title, fun c chat h => Nat.lt_succ_of_lt (hdb.chatTaken c chat h), ?_, ?_,
    ⟨hdb.branches.nodup, fun b hb => Nat.lt_succ_of_lt (hdb.branches.taken b hb)⟩⟩
  · rintro ⟨found, hfound, hc⟩
    exact ⟨found, by rw [hfind, hfound, Option.some_or], hc⟩
  · rintro ⟨found, hfound, hc⟩
    rcases hold p found hfound with h | ⟨rfl, -⟩
    · exact ⟨found, h, hc⟩
    · rw [hids] at hc
      cases hc
  · intro p found hfound
    rcases hold p found hfound with h | ⟨-, rfl⟩
    · exact Nat.lt_succ_of_lt (hdb.projectTaken p found h)
    · exact Nat.lt_succ_self _
  · intro p found hfound c hc
    rcases hold p found hfound with h | ⟨rfl, -⟩
    · exact Nat.lt_succ_of_lt (hdb.listedTaken p found h c hc)
    · rw [hids] at hc
      cases hc

/-- A chat that is in no project is stored in the project `p`, which lists it from now on. -/
theorem link (hdb : Consistent db) {c p b : ObjectId} {chat' : Chat} {project project' : Project}
    {branch : ProjectBranch}
    (hchats : ∀ c', db'.chat? c' = if c' = c then some chat' else db.chat? c')
    (hprojects : ∀ q, db'.project? q = if q = p then some project' else db.project? q)
    (hbranches : db'.branches = db.branches) (hnext : db.nextId ≤ db'.nextId)
    (hc : c < db'.nextId) (hfree : ∀ q other, db.project? q = some other → c ∉ other.chatIds)
    (hproject : db.project? p = some project) (hids : project'.chatIds = project.chatIds ++ [c])
    (hchat : chat'.projectId = some p) (hbranchId : chat'.branchId = some b)
    (htitle : chat'.title ≠ []) (hbranch : db.branch? b = some branch)
    (hof : branch.projectId = p) : Consistent db' where
  listed c' found q hfound := by
    rw [hchats] at hfound
    have hmem : ∀ c', (∃ other, db'.project? q = some other ∧ c' ∈ other.chatIds) ↔
        (∃ other, db.project? q = some other ∧ c' ∈ other.chatIds) ∨ c' = c ∧ q = p := by
      intro c'
      rw [hprojects]
      by_cases hq : q = p
      · subst hq
        simp [hproject, hids, or_comm]
      · simp [hq]
    rw [hmem]
    split_ifs at hfound with hc'
    · cases hfound
      subst hc'
      rw [hchat]
      constructor
      · rintro ⟨⟩
        exact .inr ⟨rfl, rfl⟩
      · rintro (⟨other, hother, hin⟩ | ⟨-, rfl⟩)
        · exact absurd hin (hfree q other hother)
        · rfl
    · rw [hdb.listed c' found q hfound]
      exact ⟨.inl, fun h => h.resolve_right fun h => hc' h.1⟩
  branch c' found b' hfound hb' := by
    have hsame : ∀ b, db'.branch? b = db.branch? b := fun b => congrArg (findById · b) hbranches
    rw [hchats] at hfound
    split_ifs at hfound
    · cases hfound
      rw [hbranchId] at hb'
      cases hb'
      exact ⟨branch, (hsame b).trans hbranch, by rw [hchat, hof]⟩
    · obtain ⟨found', hstored, hof'⟩ := hdb.branch c' found b' hfound hb'
      exact ⟨found', (hsame b').trans hstored, hof'⟩
  branchId c' found hfound hsome := by
    rw [hchats] at hfound
    split_ifs at hfound
    · cases hfound
      rw [hbranchId, Option.isSome_some]
    · exact hdb.branchId c' found hfound hsome
  title c' found hfound := by
    rw [hchats] at hfound
    split_ifs at hfound
    · cases hfound
      exact htitle
    · exact hdb.title c' found hfound
  chatTaken c' found hfound := by
    rw [hchats] at hfound
    split_ifs at hfound with hc'
    · exact hc' ▸ hc
    · exact (hdb.chatTaken c' found hfound).trans_le hnext
  projectTaken q found hfound := by
    rw [hprojects] at hfound
    split_ifs at hfound with hq
    · rw [hq]
      exact (hdb.projectTaken p project hproject).trans_le hnext
    · exact (hdb.projectTaken q found hfound).trans_le hnext
  listedTaken q found hfound c' hc' := by
    rw [hprojects] at hfound
    split_ifs at hfound with hq
    · cases hfound
      rw [hids] at hc'
      rcases List.mem_append.mp hc' with hold | hnew
      · exact (hdb.listedTaken p project hproject c' hold).trans_le hnext
      · rwa [List.mem_singleton.mp hnew]
    · exact (hdb.listedTaken q found hfound c' hc').trans_le hnext
  branches := by
    refine ⟨hbranches.symm ▸ hdb.branches.nodup, fun b hb => ?_⟩
    rw [hbranches] at hb
    exact (hdb.branches.taken b hb).trans_le hnext

/-- Some chats leave their projects on both sides; every other link stays. -/
theorem unlinkSome (hdb : Consistent db)
    (hchats : ∀ c chat', db'.chat? c = some chat' → ∃ chat, db.chat? c = some chat ∧
      chat'.title = chat.title ∧
      ((chat'.projectId = none ∧ chat'.branchId = none ∧
          ∀ q other, db'.project? q = some other → c ∉ other.chatIds) ∨
        (chat'.projectId = chat.projectId ∧ chat'.branchId = chat.branchId ∧
          ∀ q, (∃ other, db'.project? q = some other ∧ c ∈ other.chatIds) ↔
            ∃ other, db.project? q = some other ∧ c ∈ other.chatIds)))
    (hprojects : ∀ q other, db'.project? q = some other →
      ∃ old, db.project? q = some old ∧ other.chatIds ⊆ old.chatIds)
    (hbranches : db'.branches = db.branches) (hnext : db'.nextId = db.nextId) :
    Consistent db' where
  listed c chat' q hchat' := by
    obtain ⟨chat, hchat, -, ⟨hproject, -, hfree⟩ | ⟨hproject, -, hsame⟩⟩ := hchats c chat' hchat'
    · rw [hproject]
      constructor
      · rintro ⟨⟩
      · rintro ⟨other, hother, hc⟩
        exact absurd hc (hfree q other hother)
    · rw [hproject, hsame]
      exact hdb.listed c chat q hchat
  branch c chat' b hchat' hb := by
    obtain ⟨chat, hchat, -, ⟨-, hbranch, -⟩ | ⟨hproject, hbranch, -⟩⟩ := hchats c chat' hchat'
    · rw [hbranch] at hb
      cases hb
    · obtain ⟨branch, hstored, hof⟩ := hdb.branch c chat b hchat (hbranch ▸ hb)
      exact ⟨branch, (congrArg (findById · b) hbranches).trans hstored, hproject.trans hof⟩
  branchId c chat' hchat' hsome := by
    obtain ⟨chat, hchat, -, ⟨hproject, -⟩ | ⟨hproject, hbranch, -⟩⟩ := hchats c chat' hchat'
    · rw [hproject] at hsome
      cases hsome
    · rw [hbranch]
      exact hdb.branchId c chat hchat (hproject ▸ hsome)
  title c chat' hchat' := by
    obtain ⟨chat, hchat, htitle, -⟩ := hchats c chat' hchat'
    exact htitle ▸ hdb.title c chat hchat
  chatTaken c chat' hchat' := by
    obtain ⟨chat, hchat, -⟩ := hchats c chat' hchat'
    exact hnext ▸ hdb.chatTaken c chat hchat
  projectTaken q other hother := by
    obtain ⟨old, hold, -⟩ := hprojects q other hother
    exact hnext ▸ hdb.projectTaken q old hold
  listedTaken q other hother c hc := by
    obtain ⟨old, hold, hsubset⟩ := hprojects q other hother
    exact hnext ▸ hdb.listedTaken q old hold c (hsubset hc)
  branches := by
    refine ⟨hbranches.symm ▸ hdb.branches.nodup, fun b hb => ?_⟩
    rw [hnext]
    exact hdb.branches.taken b (hbranches ▸ hb)

theorem deleteProject (hdb : Consistent db) (now : Time) (p : ObjectId) :
    Consistent (unlinkChats now p { db with projects := deleteById db.projects p }) := by
  have hproject : ∀ q, (unlinkChats now p { db with
      projects := deleteById db.projects p }).project? q =
        if q = p then none else db.project? q := findById_deleteById _ _
  have hchat : ∀ c, (unlinkChats now p { db with
      projects := deleteById db.projects p }).chat? c =
        (db.chat? c).map fun chat => if chat.projectId = some p then unlink now chat else chat := by
    refine fun c => findById_map _ _ fun d => ?_
    split_ifs <;> rfl
  refine hdb.unlinkSome (fun c chat' h => ?_) (fun q other h => ?_) rfl rfl
  · rw [hchat] at h
    obtain ⟨chat, hold, rfl⟩ := Option.map_eq_some_iff.mp h
    refine ⟨chat, hold, ?_, ?_⟩
    · split_ifs <;> rfl
    · have hlisted := fun q => hdb.listed c chat q hold
      split_ifs with hin
      · refine .inl ⟨rfl, rfl, fun q other hother hc => ?_⟩
        rw [hproject] at hother
        split_ifs at hother with hq
        have hother' := (hlisted q).mpr ⟨other, hother, hc⟩
        rw [hin] at hother'
        exact hq (Option.some.inj hother').symm
      · refine .inr ⟨rfl, rfl, fun q => ?_⟩
        rw [hproject]
        by_cases hq : q = p
        · subst hq
          rw [← hlisted]
          simpa using hin
        · rw [if_neg hq]
  · rw [hproject] at h
    split_ifs at h
    exact ⟨other, h, fun _ hc => hc⟩

theorem detachChat (hdb : Consistent db) (now : Time) {p c : ObjectId} {chatId : Text}
    {project : Project} (hproject : db.project? p = some project)
    (hcast : castObjectId chatId = some c)
    (hsafe : ∀ chat q, db.chat? c = some chat → chat.projectId = some q →
      q = p ∧ chatId = toHexString c) :
    Consistent (unlinkChat now c { db with
      projects := modifyById db.projects p fun _ =>
        { project with
          chatIds := project.chatIds.filter fun id => toHexString id ≠ chatId
          updatedAt := now } }) := by
  have hid : project._id = p := docId_of_findById hproject
  have hspelled : ∀ c', c' ≠ c → toHexString c' ≠ chatId := by
    rintro c' hne rfl
    unfold castObjectId at hcast
    split_ifs at hcast
    rw [number_toHexString] at hcast
    exact hne (Option.some.inj hcast)
  set project' : Project :=
    { project with
      chatIds := project.chatIds.filter fun id => toHexString id ≠ chatId
      updatedAt := now } with hproject'
  have hfind : ∀ q, (unlinkChat now c { db with
      projects := modifyById db.projects p fun _ => project' }).project? q =
        if q = p then some project' else db.project? q :=
    findById_replace hproject hid
  have hchat : ∀ c', (unlinkChat now c { db with
      projects := modifyById db.projects p fun _ => project' }).chat? c' =
        if c' = c then (db.chat? c').map (unlink now) else db.chat? c' :=
    fun c' => findById_modifyById _ _ _ _ fun _ => rfl
  refine hdb.unlinkSome (fun c' chat' h => ?_) (fun q other h => ?_) rfl rfl
  · rw [hchat] at h
    split_ifs at h with hc
    · subst hc
      obtain ⟨chat, hold, rfl⟩ := Option.map_eq_some_iff.mp h
      refine ⟨chat, hold, rfl, .inl ⟨rfl, rfl, fun q other hother hin => ?_⟩⟩
      rw [hfind] at hother
      split_ifs at hother with hq
      · cases hother
        obtain ⟨hlisted, hkept⟩ := List.mem_filter.mp hin
        have hlink := (hdb.listed c' chat p hold).mpr ⟨project, hproject, hlisted⟩
        exact of_decide_eq_true hkept (hsafe chat p hold hlink).2.symm
      · have hlink := (hdb.listed c' chat q hold).mpr ⟨other, hother, hin⟩
        exact hq (hsafe chat q hold hlink).1
    · refine ⟨chat', h, rfl, .inr ⟨rfl, rfl, fun q => ?_⟩⟩
      rw [hfind]
      by_cases hq : q = p
      · subst hq
        simp [hproject, hproject', hspelled c' hc]
      · rw [if_neg hq]
  · rw [hfind] at h
    split_ifs at h with hq
    · cases h
      exact ⟨project, hq ▸ hproject, List.filter_sublist.subset⟩
    · exact ⟨other, h, fun _ hc => hc⟩

end Consistent

theorem collapseSpaces_ne_nil {s : Text} (h : s ≠ []) : collapseSpaces s ≠ [] := by
  induction s with
  | nil => exact absurd rfl h
  | cons c cs ih =>
    rw [collapseSpaces]
    split_ifs with hspace hnext
    · refine ih ?_
      rintro rfl
      cases hnext
    · exact List.cons_ne_nil _ _
    · exact List.cons_ne_nil _ _

theorem toChatTitle_ne_nil {titleSeed : Text} (h : trim titleSeed ≠ []) :
    toChatTitle titleSeed ≠ [] := by
  unfold toChatTitle
  simp only
  split_ifs
  · exact collapseSpaces_ne_nil h
  · exact List.append_ne_nil_of_right_ne_nil _ (by decide)

/-- The requests that keep both sides of every link together. Taking a chat out of a project it
is not in, or under a spelling of its id that the project does not list, separates them; so does
a link to a project whose name was patched to blanks, which can no longer be saved. -/
def KeepsLinked (call : Call) (db : Database) : Request → Prop
  | .detachChat id chatId => ∀ project c chat p,
      ownedProject? db id call.userId = some project → project.name ≠ [] →
      castObjectId chatId = some c → db.chat? c = some chat → chat.projectId = some p →
      p = project._id ∧ chatId = toHexString c
  | .createChat projectId branchId titleSeed => ∀ project,
      ownedProject? db projectId call.userId = some project → project.name = [] →
      trim titleSeed = [] ∨ objectIdStringSchema branchId = none ∨
        ∃ b, objectIdStringSchema branchId = some (some b) ∧ findActiveBranch db project b = none
  | .attachChat id chatId => ∀ project c chat,
      ownedProject? db id call.userId = some project → project.name = [] →
      castObjectId chatId = some c → db.chat? c = some chat → chat.userId = call.userId →
      c ∈ project.chatIds ∨
        ∃ b, chat.branchId = some b ∧ findActiveBranch db project b = none
  | _ => True

section Routes

variable {call : Call} {db : Database}

theorem withProject_consistent (hdb : Consistent db) (id : Text) {next : Project → Handler}
    (hnext : ∀ project, ownedProject? db id call.userId = some project →
      db.project? project._id = some project → project.userId = call.userId →
      Consistent (next project db).2) :
    Consistent (withProject id call.userId next db).2 := by
  rcases withProject_eq id next with ⟨-, h⟩ | ⟨project, hfound, hstored, howner, h⟩
  · exact h ▸ hdb
  · exact h ▸ hnext project hfound hstored howner

theorem withChat_consistent (hdb : Consistent db) (id : Text) {next : Chat → Handler}
    (hnext : ∀ chat, db.chat? chat._id = some chat → Consistent (next chat db).2) :
    Consistent (withChat id call.userId next db).2 := by
  rcases withChat_eq id next with h | ⟨chat, hstored, -, h⟩
  · exact h ▸ hdb
  · exact h ▸ hnext chat hstored

theorem withBranch_consistent (hdb : Consistent db) (project : Project)
    (branchId : Option ObjectId) {next : ProjectBranch → Handler}
    (hnext : ∀ branch db', Extends db db' → Consistent db' → branch.projectId = project._id →
      db'.branch? branch._id = some branch →
      (∀ b, branchId = some b → findActiveBranch db project b = some branch) →
      Consistent (next branch db').2) :
    Consistent (withBranch project branchId next db).2 := by
  rcases withBranch_eq project branchId next with
    h | ⟨id, branch, rfl, hfound, h⟩ | ⟨branch, db', rfl, hensure, h⟩
  · exact h ▸ hdb
  · obtain ⟨hof, -, hstored⟩ := findActiveBranch_spec hfound
    rw [h]
    refine hnext branch db .refl hdb hof hstored ?_
    rintro b ⟨⟩
    exact hfound
  · have hextends := ensureMainBranch_extends project db
    rw [hensure] at hextends
    obtain ⟨hof, hstored⟩ := ensureMainBranch_spec hdb.branches hensure
    rw [h]
    exact hnext branch db' hextends (hdb.extend hextends) hof hstored (fun b h => nomatch h)

theorem withParam_consistent (hdb : Consistent db) (id : Text) {next : ObjectId → Handler}
    (hnext : ∀ id, Consistent (next id db).2) : Consistent (withParam id next db).2 := by
  unfold withParam
  cases castObjectId id with
  | none => exact hdb
  | some id => exact hnext id

theorem createProject_consistent (hdb : Consistent db) (name : Text) (description : Option Text)
    (settings : SettingsBody) :
    Consistent (createProject call name description settings db).2 := by
  rcases createProject_cases call name description settings db with
    h | ⟨project, db', hextends, hid, hids, h⟩
  · exact hdb.extend h
  · rw [h]
    exact ((hdb.extend hextends).insertProject hid hids).extend (ensureMainBranch_extends _ _)

theorem rollbackTo_consistent (hdb : Consistent db) (project : Project) (branch : ProjectBranch)
    (snapshot : ProjectSnapshot) :
    Consistent (rollbackTo call project branch snapshot db).2 := by
  unfold rollbackTo
  cases call.bundleError snapshot with
  | some response => exact hdb
  | none =>
    cases hset : setBranchHead branch._id branch.headVersion snapshot._id db with
    | none => exact hdb
    | some db' =>
      have hmoved : Consistent db' := by
        unfold setBranchHead at hset
        split at hset
        · cases hset
        · cases hset
          exact hdb.moveHead _ (fun _ => rfl) fun _ => rfl
      have hactive : Consistent
          (activateSnapshot call.now project branch snapshot._id db') := by
        unfold activateSnapshot
        split_ifs
        · exact hmoved.modifyProject _ (fun _ h => h) fun _ _ => rfl
        · exact hmoved
      simp only
      split <;> exact hactive

theorem rollback_consistent (hdb : Consistent db) (id snapshotId : Text)
    (branchId : Option Text) : Consistent (rollback call id snapshotId branchId db).2 := by
  refine withParam_consistent hdb id fun _ => withParam_consistent hdb snapshotId fun _ => ?_
  refine withProject_consistent hdb id fun project _ _ _ => ?_
  cases objectIdStringSchema branchId with
  | none => exact hdb
  | some branchId =>
    refine withBranch_consistent hdb project branchId fun branch db' _ hdb' _ _ _ => ?_
    split
    · exact hdb'
    · exact rollbackTo_consistent hdb' project branch _

theorem createBranch_consistent (hdb : Consistent db) (id name : Text)
    (fromSnapshotId : Option Text) :
    Consistent (createBranch call id name fromSnapshotId db).2 := by
  unfold createBranch
  cases objectIdStringSchema fromSnapshotId with
  | none => exact hdb
  | some fromSnapshotId =>
    simp only
    split_ifs
    · exact hdb
    · exact withProject_consistent hdb id fun project _ _ _ =>
        hdb.extend (createProjectBranch_extends project _ fromSnapshotId db)

theorem patchProject_consistent (hdb : Consistent db) (id : Text) (name description : Option Text)
    (settings : SettingsBody) :
    Consistent (patchProject call id name description settings db).2 := by
  unfold patchProject
  cases settingsSchema settings with
  | none => exact hdb
  | some settings =>
    simp only
    split_ifs
    · exact hdb
    · exact hdb
    · refine withProject_consistent hdb id fun project _ _ _ => ?_
      have hpatched : Consistent { db with
          projects := modifyById db.projects project._id
            (patchedProject call name description settings) } :=
        hdb.modifyProject _ (fun _ h => h) fun _ _ => rfl
      split <;> exact hpatched

theorem detachChat_consistent (hdb : Consistent db) (hroom : db.nextId ≤ 16 ^ 24)
    (id chatId : Text) (hsafe : KeepsLinked call db (.detachChat id chatId)) :
    Consistent (detachChat call id chatId db).2 := by
  refine withProject_consistent hdb id fun project hfound hstored _ => ?_
  by_cases hname : project.name = []
  · simp only [saveProject, hname, if_true]
    exact hdb
  · simp only [saveProject, hname, if_false]
    cases hcast : castObjectId chatId with
    | none =>
      -- every id of the list is cast, so the text is none of them
      have hkept : (project.chatIds.filter fun id => toHexString id ≠ chatId) =
          project.chatIds := by
        refine List.filter_eq_self.mpr fun c hc => decide_eq_true ?_
        rintro rfl
        have htaken := hdb.listedTaken _ project hstored c hc
        rw [castObjectId_toHexString (htaken.trans_le hroom)] at hcast
        cases hcast
      refine hdb.modifyProject project._id (fun _ _ => rfl) fun other hother => ?_
      rw [hstored] at hother
      cases hother
      exact hkept
    | some c =>
      exact hdb.detachChat call.now hstored hcast fun chat q hchat hq =>
        hsafe project c chat q hfound hname hcast hchat hq

theorem deleteProject_consistent (hdb : Consistent db) (id : Text) :
    Consistent (deleteProject call id db).2 :=
  withProject_consistent hdb id fun project _ _ _ => hdb.deleteProject call.now project._id

theorem sendMessage_consistent (hdb : Consistent db) (id content : Text) :
    Consistent (sendMessage call id content db).2 := by
  unfold sendMessage
  split_ifs
  · exact hdb
  · refine withChat_consistent hdb id fun chat hstored => ?_
    have hsaved : Consistent (saveChat call.now
        { chat with messages := chat.messages ++ [⟨call.uuid, "user", content, call.now⟩] } db).2 := by
      unfold saveChat
      split_ifs
      · exact hdb
      · refine hdb.modifyChat chat._id (fun _ _ => rfl) fun other hother => ?_
        rw [hstored] at hother
        cases hother
        exact ⟨rfl, rfl, hdb.title _ chat hstored⟩
    simp only
    split <;> rename_i hsave <;> exact (congrArg Prod.snd hsave) ▸ hsaved

theorem patchChat_consistent (hdb : Consistent db) (id title : Text) :
    Consistent (patchChat call id title db).2 := by
  unfold patchChat
  split_ifs with htitle
  · exact hdb
  · refine withChat_consistent hdb id fun chat _ => ?_
    have hpatched : Consistent { db with
        chats := modifyById db.chats chat._id fun c =>
          { c with title := title, updatedAt := call.now } } :=
      hdb.modifyChat _ (fun _ h => h) fun _ _ => ⟨rfl, rfl, htitle⟩
    simp only
    split <;> exact hpatched

theorem getSnapshots_consistent (hdb : Consistent db) (id : Text) (branchId : Option Text) :
    Consistent (getSnapshots call id branchId db).2 := by
  refine withParam_consistent hdb id fun _ => withProject_consistent hdb id fun project _ _ _ => ?_
  cases objectIdStringSchema branchId with
  | none => exact hdb
  | some branchId => exact withBranch_consistent hdb project branchId fun _ _ _ hdb' _ _ _ => hdb'

theorem getSnapshot_consistent (hdb : Consistent db) (id snapshotId : Text) :
    Consistent (getSnapshot call id snapshotId db).2 := by
  refine withParam_consistent hdb id fun _ => withParam_consistent hdb snapshotId fun _ => ?_
  refine withProject_consistent hdb id fun project _ _ _ => ?_
  split <;> exact hdb

theorem getTimeline_consistent (hdb : Consistent db) (id : Text) (limit : Option ℕ)
    (cursor : Option Text) : Consistent (getTimeline call id limit cursor db).2 := by
  unfold getTimeline
  cases timelineQuerySchema limit cursor with
  | none => exact hdb
  | some query =>
    refine withChat_consistent hdb id fun chat _ => ?_
    simp only
    split <;> exact hdb

/-- The chat is saved too, so that both sides of the link are stored. -/
theorem saveLink_consistent (hdb : Consistent db) {project : Project} {chat : Chat}
    {branch : ProjectBranch} (hproject : db.project? project._id = some project)
    (hchat : db.chat? chat._id = some chat) (hname : project.name ≠ [])
    (hfree : chat.projectId = none)
    (hbranch : db.branch? branch._id = some branch) (hof : branch.projectId = project._id) :
    Consistent (saveLink call { project with chatIds := project.chatIds ++ [chat._id] }
      { chat with projectId := some project._id, branchId := some branch._id } db).2 := by
  have hunlisted : ∀ q other, db.project? q = some other → chat._id ∉ other.chatIds := by
    intro q other hother hin
    have hlink := (hdb.listed _ chat q hchat).mpr ⟨other, hother, hin⟩
    rw [hfree] at hlink
    cases hlink
  have htitle := hdb.title _ chat hchat
  simp only [saveLink, saveProject, saveChat, hname, htitle, if_false, Option.isSome_some,
    Option.isNone_some, decide_false, Bool.and_false, Bool.or_false, Bool.false_eq_true,
    Bool.and_true, if_true]
  exact hdb.link (findById_replace hchat rfl) (findById_replace hproject rfl) rfl le_rfl
    (hdb.chatTaken _ chat hchat) hunlisted hproject rfl rfl rfl htitle hbranch hof

theorem attachChat_consistent (hdb : Consistent db) (id chatId : Text)
    (hsafe : KeepsLinked call db (.attachChat id chatId)) :
    Consistent (attachChat call id chatId db).2 := by
  refine withProject_consistent hdb id fun project hfound hstored _ => ?_
  cases hcast : castObjectId chatId with
  | none => exact hdb
  | some c =>
    simp only
    split
    · exact hdb
    · rename_i chat hchat
      obtain ⟨hchat, howner⟩ := Option.filter_eq_some_iff.mp hchat
      obtain rfl := chat?_id hchat
      refine withBranch_consistent hdb project chat.branchId
        fun branch db' hextends hdb' hof hbranch hactive => ?_
      split_ifs with hin
      · exact hdb'
      · have hnew : chat._id ∉ project.chatIds := by simpa using hin
        have hname : project.name ≠ [] := by
          intro hname
          rcases hsafe project _ chat hfound hname hcast hchat (of_decide_eq_true howner) with
            hlisted | ⟨b, hb, hnone⟩
          · exact hnew hlisted
          · rw [hactive b hb] at hnone
            cases hnone
        have hfree : chat.projectId = none := by
          by_contra hsome
          obtain ⟨p, hp⟩ := Option.ne_none_iff_exists'.mp hsome
          obtain ⟨b, hb⟩ := Option.isSome_iff_exists.mp
            (hdb.branchId _ chat hchat (Option.isSome_of_mem hp))
          obtain ⟨stored, hstoredBranch, hofChat⟩ := hdb.branch _ chat b hchat hb
          obtain ⟨-, hid, hfoundBranch⟩ := findActiveBranch_spec (hactive b hb)
          rw [hid, hstoredBranch] at hfoundBranch
          cases hfoundBranch
          rw [hof] at hofChat
          obtain ⟨other, hother, hlisted⟩ := (hdb.listed _ chat _ hchat).mp hofChat
          rw [hstored] at hother
          cases hother
          exact hnew hlisted
        exact saveLink_consistent hdb' ((hextends.project? _).trans hstored)
          ((hextends.chat? _).trans hchat) hname hfree hbranch hof

theorem insertChat_consistent (hdb : Consistent db) {project : Project} {branch : ProjectBranch}
    {titleSeed : Text} (hproject : db.project? project._id = some project)
    (hname : project.name ≠ []) (htitle : trim titleSeed ≠ [])
    (hbranch : db.branch? branch._id = some branch) (hof : branch.projectId = project._id) :
    Consistent (insertChat call project branch titleSeed db).2 := by
  have hfree : db.chat? db.nextId = none := by
    cases hchat : db.chat? db.nextId with
    | none => rfl
    | some chat => exact absurd (hdb.chatTaken _ chat hchat) (lt_irrefl _)
  have hunlisted : ∀ q other, db.project? q = some other → db.nextId ∉ other.chatIds :=
    fun q other hother hin => absurd (hdb.listedTaken q other hother _ hin) (lt_irrefl _)
  have hcontains : project.chatIds.contains db.nextId = false := by
    simpa using hunlisted _ project hproject
  simp only [insertChat, newChat, hcontains, saveProject, hname, Bool.false_eq_true, if_false]
  exact hdb.link (findById_insert hfree) (findById_replace hproject rfl) rfl (Nat.le_succ _)
    (Nat.lt_succ_self _) hunlisted hproject rfl rfl rfl (toChatTitle_ne_nil htitle) hbranch hof

theorem createChat_consistent (hdb : Consistent db) (projectId : Text) (branchId : Option Text)
    (titleSeed : Text) (hsafe : KeepsLinked call db (.createChat projectId branchId titleSeed)) :
    Consistent (createChat call projectId branchId titleSeed db).2 := by
  refine withParam_consistent hdb projectId fun _ => ?_
  cases hschema : objectIdStringSchema branchId with
  | none => exact hdb
  | some branchId' =>
    simp only
    split_ifs with htitle
    · exact hdb
    · refine withProject_consistent hdb projectId fun project hfound hstored _ => ?_
      refine withBranch_consistent hdb project branchId'
        fun branch db' hextends hdb' hof hbranch hactive => ?_
      have hname : project.name ≠ [] := by
        intro hname
        rcases hsafe project hfound hname with hblank | hnone | ⟨b, hb, hnone⟩
        · exact htitle hblank
        · rw [hschema] at hnone
          cases hnone
        · rw [hschema] at hb
          rw [hactive b (Option.some.inj hb)] at hnone
          cases hnone
      exact insertChat_consistent hdb' ((hextends.project? _).trans hstored) hname htitle hbranch hof

end Routes

theorem request_consistent {call : Call} {db : Database} (hdb : Consistent db)
    (hroom : db.nextId ≤ 16 ^ 24) (request : Request) (hsafe : KeepsLinked call db request) :
    Consistent (after call request db) := by
  cases request with
  | malformed => exact hdb
  | getProjects => exact hdb
  | getProject id => exact withProject_consistent hdb id fun _ _ _ _ => hdb
  | getSnapshots id branchId => exact getSnapshots_consistent hdb id branchId
  | getSnapshot id snapshotId => exact getSnapshot_consistent hdb id snapshotId
  | rollback id snapshotId branchId => exact rollback_consistent hdb id snapshotId branchId
  | createProject name description settings =>
    exact createProject_consistent hdb name description settings
  | getBranches id =>
    exact withProject_consistent hdb id fun project _ _ _ =>
      hdb.extend (ensureMainBranch_extends project db)
  | createBranch id name fromSnapshotId => exact createBranch_consistent hdb id name fromSnapshotId
  | patchProject id name description settings =>
    exact patchProject_consistent hdb id name description settings
  | attachChat id chatId => exact attachChat_consistent hdb id chatId hsafe
  | detachChat id chatId => exact detachChat_consistent hdb hroom id chatId hsafe
  | deleteProject id => exact deleteProject_consistent hdb id
  | getChats => exact hdb
  | getTimeline id limit cursor => exact getTimeline_consistent hdb id limit cursor
  | getChat id => exact withChat_consistent hdb id fun _ _ => hdb
  | createChat projectId branchId titleSeed =>
    exact createChat_consistent hdb projectId branchId titleSeed hsafe
  | sendMessage id content => exact sendMessage_consistent hdb id content
  | patchChat id title => exact patchChat_consistent hdb id title
  | deleteChat id => exact withChat_consistent hdb id fun chat _ => hdb.deleteChat chat._id

/-- The databases that requests of any users lead to from the empty one, as long as there are ids
left and every request keeps the links. -/
inductive Reached : Database → Prop where
  | empty : Reached Database.empty
  | step {db : Database} (call : Call) (request : Request) (h : Reached db)
      (hroom : db.nextId ≤ 16 ^ 24) (hsafe : KeepsLinked call db request) :
      Reached (after call request db)

theorem Reached.consistent {db : Database} (h : Reached db) : Consistent db := by
  induction h with
  | empty => exact .empty
  | step call request h hroom hsafe ih => exact request_consistent ih hroom request hsafe

/-- Both sides of every link agree after every such sequence of requests. -/
theorem reached_linked {db : Database} (h : Reached db) : Linked db := h.consistent.toLinked

def run (steps : List (Call × Request)) : Database :=
  steps.foldl (fun db step => after step.1 step.2 db) Database.empty

def ownerCall : Call where
  userId := 1
  now := 5
  uuid := []
  defaultModelId := text "standard"
  modelIds := [text "standard"]
  bundleError _ := none
  runtime := ⟨fun _ => none, fun _ => []⟩

def createProjectStep (name : String) : Call × Request :=
  (ownerCall, .createProject (text name) none ⟨none, none, none, none⟩)

/-- Chat 6 is created in project 2. -/
def chatInProject : List (Call × Request) :=
  [createProjectStep "first", createProjectStep "second",
    (ownerCall, .createChat (toHexString 2) none (text "hello"))]

theorem chatInProject_linked : Linked (run chatInProject) := by
  refine reached_linked (.step ownerCall _ (.step ownerCall _ (.step ownerCall _ .empty
    (by decide) trivial) (by decide) trivial) (by decide) ?_)
  intro project hfound hname
  have hstored : (ownedProject? (run [createProjectStep "first", createProjectStep "second"])
      (toHexString 2) 1).map (·.name) = some (text "first") := by decide
  have hproject := congrArg (Option.map Project.name) hfound
  rw [Option.map_some, hname] at hproject
  cases hproject.symm.trans hstored

/-- The owner takes chat 6 out of project 4, where it never was: project 2 still lists it. -/
theorem chat_detached_elsewhere : ¬ Linked (run (chatInProject ++
    [(ownerCall, .detachChat (toHexString 4) (toHexString 6))])) := by
  intro h
  have hlisted := h.listed 6 ⟨6, 1, none, none, text "hello", [], 5, 5⟩ 2 (by decide)
  have hlink := hlisted.mpr
    ⟨⟨2, some 1, 1, text "first", none, [6], none, 0,
      ⟨.react, .tailwind, .shadcn, some (text "standard")⟩, 5⟩, by decide, by decide⟩
  cases hlink

end AppBuilder.Workspaces
