import AppBuilder.Workspaces.RouteLaws

/-! What a request leaves of the documents of other users. -/
namespace AppBuilder.Workspaces
open Agent Store Encoding

/-- Every chat and every project of another user is still there, unchanged. -/
structure Untouched (userId : ObjectId) (db db' : Database) : Prop where
  chats : ∀ id chat, db.chat? id = some chat → chat.userId ≠ userId → db'.chat? id = some chat
  projects : ∀ id project, db.project? id = some project → project.userId ≠ userId →
    db'.project? id = some project

namespace Untouched

variable {u : ObjectId} {db db' db'' : Database}

theorem of_eq (hchats : db'.chats = db.chats) (hprojects : db'.projects = db.projects) :
    Untouched u db db' where
  chats id chat h _ := by rwa [Database.chat?, hchats]
  projects id project h _ := by rwa [Database.project?, hprojects]

theorem of_extends (h : Extends db db') : Untouched u db db' := of_eq h.chats h.projects

theorem refl : Untouched u db db := of_eq rfl rfl

theorem trans (h : Untouched u db db') (h' : Untouched u db' db'') : Untouched u db db'' where
  chats id chat hchat hne := h'.chats id chat (h.chats id chat hchat hne) hne
  projects id project hproject hne :=
    h'.projects id project (h.projects id project hproject hne) hne

theorem modifyProject {project : Project} (hstored : db.project? project._id = some project)
    (howner : project.userId = u) {f : Project → Project}
    (hf : ∀ p, p._id = project._id → (f p)._id = project._id) :
    Untouched u db { db with projects := modifyById db.projects project._id f } where
  chats _ _ h _ := h
  projects id other h hne := by
    have hid : id ≠ project._id := by
      rintro rfl
      rw [hstored] at h
      exact hne (Option.some.inj h ▸ howner)
    rw [Database.project?, findById_modifyById_of _ _ _ _ hf, if_neg hid]
    exact h

theorem modifyChat {chat : Chat} (hstored : db.chat? chat._id = some chat)
    (howner : chat.userId = u) {f : Chat → Chat}
    (hf : ∀ c, c._id = chat._id → (f c)._id = chat._id) :
    Untouched u db { db with chats := modifyById db.chats chat._id f } where
  chats id other h hne := by
    have hid : id ≠ chat._id := by
      rintro rfl
      rw [hstored] at h
      exact hne (Option.some.inj h ▸ howner)
    rw [Database.chat?, findById_modifyById_of _ _ _ _ hf, if_neg hid]
    exact h
  projects _ _ h _ := h

theorem insertProject (project : Project) (nextId : ObjectId) :
    Untouched u db { db with projects := db.projects ++ [project], nextId := nextId } where
  chats _ _ h _ := h
  projects id other h _ := by
    rw [Database.project?] at h ⊢
    rw [findById_append, h, Option.some_or]

theorem insertChat (chat : Chat) (nextId : ObjectId) :
    Untouched u db { db with chats := db.chats ++ [chat], nextId := nextId } where
  chats id other h _ := by
    rw [Database.chat?] at h ⊢
    rw [findById_append, h, Option.some_or]
  projects _ _ h _ := h

end Untouched

section Routes

variable {call : Call} {db : Database}

theorem saveProject_untouched {now : Time} {project : Project} {stored : Project}
    (hstored : db.project? project._id = some stored) (howner : stored.userId = call.userId) :
    Untouched call.userId db (saveProject now project db).2 := by
  have hid : stored._id = project._id := project?_id hstored
  unfold saveProject
  split_ifs
  · exact .refl
  · rw [← hid] at hstored ⊢
    exact .modifyProject hstored howner fun _ _ => rfl

theorem saveChat_untouched {now : Time} {chat : Chat} {stored : Chat}
    (hstored : db.chat? chat._id = some stored) (howner : stored.userId = call.userId) :
    Untouched call.userId db (saveChat now chat db).2 := by
  have hid : stored._id = chat._id := chat?_id hstored
  unfold saveChat
  split_ifs
  · exact .refl
  · rw [← hid] at hstored ⊢
    exact .modifyChat hstored howner fun _ _ => rfl

/-- A route behind a project touches nothing foreign when it does not for an owned project. -/
theorem withProject_untouched (id : Text) {next : Project → Handler}
    (hnext : ∀ project, db.project? project._id = some project → project.userId = call.userId →
      Untouched call.userId db (next project db).2) :
    Untouched call.userId db (withProject id call.userId next db).2 := by
  rcases withProject_eq id next with ⟨-, h⟩ | ⟨project, -, hstored, howner, h⟩
  · exact h ▸ .refl
  · exact h ▸ hnext project hstored howner

theorem withChat_untouched (id : Text) {next : Chat → Handler}
    (hnext : ∀ chat, db.chat? chat._id = some chat → chat.userId = call.userId →
      Untouched call.userId db (next chat db).2) :
    Untouched call.userId db (withChat id call.userId next db).2 := by
  rcases withChat_eq id next with h | ⟨chat, hstored, howner, h⟩
  · exact h ▸ .refl
  · exact h ▸ hnext chat hstored howner

theorem withBranch_untouched (project : Project) (branchId : Option ObjectId)
    {next : ProjectBranch → Handler}
    (hnext : ∀ branch db', Extends db db' → Untouched call.userId db' (next branch db').2) :
    Untouched call.userId db (withBranch project branchId next db).2 := by
  rcases withBranch_eq project branchId next with
    h | ⟨_, branch, -, -, h⟩ | ⟨branch, db', -, hensure, h⟩
  · exact h ▸ .refl
  · exact h ▸ hnext branch db .refl
  · have hextends := ensureMainBranch_extends project db
    rw [hensure] at hextends
    rw [h]
    exact (Untouched.of_extends hextends).trans (hnext branch db' hextends)

theorem withParam_untouched (id : Text) {next : ObjectId → Handler}
    (hnext : ∀ id, Untouched call.userId db (next id db).2) :
    Untouched call.userId db (withParam id next db).2 := by
  unfold withParam
  cases castObjectId id with
  | none => exact .refl
  | some id => exact hnext id

theorem createProject_untouched (name : Text) (description : Option Text)
    (settings : SettingsBody) :
    Untouched call.userId db (createProject call name description settings db).2 := by
  rcases createProject_cases call name description settings db with
    h | ⟨project, db', hextends, -, -, h⟩
  · exact .of_extends h
  · rw [h]
    refine (Untouched.of_extends hextends).trans ?_
    exact (Untouched.insertProject project _).trans
      (.of_extends (ensureMainBranch_extends project _))

theorem rollbackTo_untouched {project : Project} (branch : ProjectBranch)
    (snapshot : ProjectSnapshot) (hstored : db.project? project._id = some project)
    (howner : project.userId = call.userId) :
    Untouched call.userId db (rollbackTo call project branch snapshot db).2 := by
  unfold rollbackTo
  cases call.bundleError snapshot with
  | some response => exact .refl
  | none =>
    cases hset : setBranchHead branch._id branch.headVersion snapshot._id db with
    | none => exact .refl
    | some db' =>
      have hbranches : db'.chats = db.chats ∧ db'.projects = db.projects := by
        unfold setBranchHead at hset
        split at hset
        · cases hset
        · cases hset
          exact ⟨rfl, rfl⟩
      have hstored' : db'.project? project._id = some project := by
        rw [Database.project?, hbranches.2]
        exact hstored
      have hactive : Untouched call.userId db
          (activateSnapshot call.now project branch snapshot._id db') := by
        refine (Untouched.of_eq hbranches.1 hbranches.2).trans ?_
        unfold activateSnapshot
        split_ifs
        · exact .modifyProject hstored' howner fun _ h => h
        · exact .refl
      simp only
      split <;> exact hactive

theorem patchProject_untouched (id : Text) (name description : Option Text)
    (settings : SettingsBody) :
    Untouched call.userId db (patchProject call id name description settings db).2 := by
  unfold patchProject
  cases settingsSchema settings with
  | none => exact .refl
  | some settings =>
    simp only
    split_ifs
    · exact .refl
    · exact .refl
    · refine withProject_untouched id fun project hstored howner => ?_
      have hpatched : Untouched call.userId db { db with
          projects := modifyById db.projects project._id
            (patchedProject call name description settings) } :=
        .modifyProject hstored howner fun _ h => h
      split <;> exact hpatched

theorem saveLink_untouched {project stored : Project} {chat storedChat : Chat}
    (hstored : db.project? project._id = some stored) (howner : stored.userId = call.userId)
    (hchat : db.chat? chat._id = some storedChat) (hchatOwner : storedChat.userId = call.userId) :
    Untouched call.userId db (saveLink call project chat db).2 := by
  have hproject := (@saveProject_untouched _ _ call.now) hstored howner
  have hchat' : (saveProject call.now project db).2.chat? chat._id = some storedChat := by
    unfold saveProject
    split_ifs <;> exact hchat
  have hboth := hproject.trans ((@saveChat_untouched _ _ call.now) hchat' hchatOwner)
  unfold saveLink
  simp only
  split_ifs <;> exact hboth

theorem attachChat_untouched (id chatId : Text) :
    Untouched call.userId db (attachChat call id chatId db).2 := by
  refine withProject_untouched id fun project hstored howner => ?_
  split
  · exact .refl
  · split
    · exact .refl
    · rename_i chat hfound
      obtain ⟨hchat, hchatOwner⟩ := Option.filter_eq_some_iff.mp hfound
      rw [← chat?_id hchat] at hchat
      refine withBranch_untouched project chat.branchId fun branch db' hextends => ?_
      split_ifs
      · exact .refl
      · exact (@saveLink_untouched _ _ _ project _ chat)
          ((hextends.project? _).trans hstored) howner ((hextends.chat? _).trans hchat)
          (of_decide_eq_true hchatOwner)

theorem insertChat_untouched {project : Project} (branch : ProjectBranch) (titleSeed : Text)
    (hstored : db.project? project._id = some project) (howner : project.userId = call.userId) :
    Untouched call.userId db (insertChat call project branch titleSeed db).2 := by
  have hchat := @Untouched.insertChat call.userId db
    (newChat call db.nextId project._id branch._id titleSeed) (db.nextId + 1)
  unfold insertChat
  simp only
  split <;> rename_i hsave <;> refine hchat.trans ?_ <;>
    exact (congrArg Prod.snd hsave) ▸ (@saveProject_untouched _ _ _ _ project) hstored howner

theorem createChat_untouched (projectId : Text) (branchId : Option Text) (titleSeed : Text) :
    Untouched call.userId db (createChat call projectId branchId titleSeed db).2 := by
  refine withParam_untouched projectId fun _ => ?_
  cases objectIdStringSchema branchId with
  | none => exact .refl
  | some branchId =>
    simp only
    split_ifs
    · exact .refl
    · refine withProject_untouched projectId fun project hstored howner => ?_
      refine withBranch_untouched project branchId fun branch db' hextends => ?_
      exact insertChat_untouched branch titleSeed ((hextends.project? _).trans hstored) howner

theorem sendMessage_untouched (id content : Text) :
    Untouched call.userId db (sendMessage call id content db).2 := by
  unfold sendMessage
  split_ifs
  · exact .refl
  · refine withChat_untouched id fun chat hstored howner => ?_
    simp only
    split <;> rename_i hsave <;>
      exact (congrArg Prod.snd hsave) ▸ (@saveChat_untouched _ _ _ _ chat) hstored howner

theorem patchChat_untouched (id title : Text) :
    Untouched call.userId db (patchChat call id title db).2 := by
  unfold patchChat
  split_ifs
  · exact .refl
  · refine withChat_untouched id fun chat hstored howner => ?_
    have hpatched : Untouched call.userId db { db with
        chats := modifyById db.chats chat._id fun c =>
          { c with title := title, updatedAt := call.now } } :=
      .modifyChat hstored howner fun _ h => h
    simp only
    split <;> exact hpatched

theorem deleteChat_untouched (id : Text) :
    Untouched call.userId db (deleteChat call id db).2 := by
  refine withChat_untouched id fun chat hstored howner => ⟨?_, fun _ _ h _ => h⟩
  intro other found h hne
  rw [Database.chat?, findById_deleteById, if_neg]
  · exact h
  · rintro rfl
    rw [hstored] at h
    exact hne (Option.some.inj h ▸ howner)

theorem rollback_untouched (id snapshotId : Text) (branchId : Option Text) :
    Untouched call.userId db (rollback call id snapshotId branchId db).2 := by
  refine withParam_untouched id fun _ => withParam_untouched snapshotId fun snapshotId => ?_
  refine withProject_untouched id fun project hstored howner => ?_
  cases objectIdStringSchema branchId with
  | none => exact .refl
  | some branchId =>
    refine withBranch_untouched project branchId fun branch db' hextends => ?_
    split
    · exact .refl
    · exact rollbackTo_untouched branch _ ((hextends.project? _).trans hstored) howner

theorem createBranch_untouched (id name : Text) (fromSnapshotId : Option Text) :
    Untouched call.userId db (createBranch call id name fromSnapshotId db).2 := by
  unfold createBranch
  cases objectIdStringSchema fromSnapshotId with
  | none => exact .refl
  | some fromSnapshotId =>
    simp only
    split_ifs
    · exact .refl
    · exact withProject_untouched id fun project _ _ =>
        .of_extends (createProjectBranch_extends project _ fromSnapshotId db)

theorem getSnapshots_untouched (id : Text) (branchId : Option Text) :
    Untouched call.userId db (getSnapshots call id branchId db).2 := by
  refine withParam_untouched id fun _ => withProject_untouched id fun project _ _ => ?_
  cases objectIdStringSchema branchId with
  | none => exact .refl
  | some branchId => exact withBranch_untouched project branchId fun _ _ _ => .refl

theorem getSnapshot_untouched (id snapshotId : Text) :
    Untouched call.userId db (getSnapshot call id snapshotId db).2 := by
  refine withParam_untouched id fun _ => withParam_untouched snapshotId fun snapshotId => ?_
  refine withProject_untouched id fun project _ _ => ?_
  split <;> exact .refl

theorem getTimeline_untouched (id : Text) (limit : Option ℕ) (cursor : Option Text) :
    Untouched call.userId db (getTimeline call id limit cursor db).2 := by
  unfold getTimeline
  cases timelineQuerySchema limit cursor with
  | none => exact .refl
  | some query =>
    refine withChat_untouched id fun chat _ _ => ?_
    simp only
    split <;> exact .refl

end Routes

/-- The requests that reach a document of another user: a chat that is taken out of a project it
is not in, and the deletion of a project that holds foreign chats. -/
def Trespasses (call : Call) (db : Database) : Request → Prop
  | .detachChat id chatId => ∃ project, ownedProject? db id call.userId = some project ∧
      project.name ≠ [] ∧ ∃ c chat, castObjectId chatId = some c ∧ db.chat? c = some chat ∧
        chat.userId ≠ call.userId ∧ unlink call.now chat ≠ chat
  | .deleteProject id => ∃ project, ownedProject? db id call.userId = some project ∧
      ∃ c chat, db.chat? c = some chat ∧ chat.userId ≠ call.userId ∧
        chat.projectId = some project._id
  | _ => False

section Trespass

variable {call : Call} {db : Database}

variable {db' : Database} {u : ObjectId}

theorem unlinkChat_untouched_iff (now : Time) (c : ObjectId) (hbefore : Untouched u db db')
    (hchats : db'.chats = db.chats) :
    Untouched u db (unlinkChat now c db') ↔
      ∀ chat, db.chat? c = some chat → chat.userId ≠ u → unlink now chat = chat := by
  have hfind : ∀ id, (unlinkChat now c db').chat? id =
      if id = c then (db.chat? id).map (unlink now) else db.chat? id := by
    intro id
    have hbefore : db.chat? id = db'.chat? id := congrArg (findById · id) hchats.symm
    rw [hbefore]
    exact findById_modifyById _ _ _ _ fun _ => rfl
  constructor
  · intro h chat hchat hne
    have hkept := h.chats c chat hchat hne
    rw [hfind, if_pos rfl, hchat] at hkept
    exact Option.some.inj hkept
  · refine fun h => ⟨fun id chat hchat hne => ?_, hbefore.projects⟩
    rw [hfind]
    split_ifs with hid
    · subst hid
      rw [hchat, Option.map_some, h chat hchat hne]
    · exact hchat

theorem unlinkChats_untouched_iff (now : Time) (p : ObjectId) (hbefore : Untouched u db db')
    (hchats : db'.chats = db.chats) :
    Untouched u db (unlinkChats now p db') ↔
      ∀ c chat, db.chat? c = some chat → chat.userId ≠ u → chat.projectId ≠ some p := by
  have hfind : ∀ id, (unlinkChats now p db').chat? id = (db.chat? id).map fun c =>
      if c.projectId = some p then unlink now c else c := by
    intro id
    have hbefore : db.chat? id = db'.chat? id := congrArg (findById · id) hchats.symm
    rw [hbefore]
    refine findById_map _ _ fun d => ?_
    split_ifs <;> rfl
  constructor
  · intro h c chat hchat hne hproject
    have hkept := h.chats c chat hchat hne
    rw [hfind, hchat, Option.map_some, if_pos hproject] at hkept
    have hnone := congrArg Chat.projectId (Option.some.inj hkept)
    rw [hproject] at hnone
    cases hnone
  · refine fun h => ⟨fun id chat hchat hne => ?_, hbefore.projects⟩
    rw [hfind, hchat, Option.map_some, if_neg (h id chat hchat hne)]

theorem deleteOwned_untouched {project : Project}
    (hstored : db.project? project._id = some project) (howner : project.userId = u) :
    Untouched u db { db with projects := deleteById db.projects project._id } where
  chats _ _ h _ := h
  projects id other h hne := by
    rw [Database.project?, findById_deleteById, if_neg]
    · exact h
    · rintro rfl
      rw [hstored] at h
      exact hne (Option.some.inj h ▸ howner)

theorem detachChat_untouched_iff (id chatId : Text) :
    Untouched call.userId db (detachChat call id chatId db).2 ↔
      ¬ Trespasses call db (.detachChat id chatId) := by
  unfold detachChat
  simp only [Trespasses]
  rcases (@withProject_eq db call.userId) id _ with
    ⟨hnone, h⟩ | ⟨project, hfound, hstored, howner, h⟩
  · rw [h, hnone]
    refine iff_of_true .refl ?_
    rintro ⟨project, ⟨⟩, -⟩
  · rw [h, hfound]
    by_cases hname : project.name = []
    · simp only [saveProject, hname, if_true]
      refine iff_of_true .refl ?_
      rintro ⟨_, ⟨⟩, hsaved, -⟩
      exact hsaved hname
    · have hsaved : Untouched call.userId db { db with
          projects := modifyById db.projects project._id fun _ =>
            { project with
              chatIds := project.chatIds.filter fun id => toHexString id ≠ chatId
              updatedAt := call.now } } :=
        .modifyProject hstored howner fun _ _ => rfl
      simp only [saveProject, hname, if_false]
      cases castObjectId chatId with
      | none =>
        refine iff_of_true hsaved ?_
        rintro ⟨_, ⟨⟩, -, _, _, ⟨⟩, -⟩
      | some c =>
        refine (unlinkChat_untouched_iff call.now c hsaved rfl).trans ⟨?_, ?_⟩
        · rintro hkept ⟨_, ⟨⟩, -, _, chat, ⟨⟩, hchat, hne, hchanged⟩
          exact hchanged (hkept chat hchat hne)
        · intro hfree chat hchat hne
          by_contra hchanged
          exact hfree ⟨project, rfl, hname, c, chat, rfl, hchat, hne, hchanged⟩

theorem deleteProject_untouched_iff (id : Text) :
    Untouched call.userId db (deleteProject call id db).2 ↔
      ¬ Trespasses call db (.deleteProject id) := by
  unfold deleteProject
  simp only [Trespasses]
  rcases (@withProject_eq db call.userId) id _ with
    ⟨hnone, h⟩ | ⟨project, hfound, hstored, howner, h⟩
  · rw [h, hnone]
    refine iff_of_true .refl ?_
    rintro ⟨project, ⟨⟩, -⟩
  · rw [h, hfound]
    have hdeleted := deleteOwned_untouched hstored howner
    refine (unlinkChats_untouched_iff call.now project._id hdeleted rfl).trans ⟨?_, ?_⟩
    · rintro hkept ⟨_, ⟨⟩, c, chat, hchat, hne, hproject⟩
      exact hkept c chat hchat hne hproject
    · intro hfree c chat hchat hne hproject
      exact hfree ⟨project, rfl, c, chat, hchat, hne, hproject⟩

end Trespass

/-- A request leaves the documents of all other users alone exactly when it does not trespass. -/
theorem request_untouched_iff (call : Call) (db : Database) (request : Request) :
    Untouched call.userId db (after call request db) ↔ ¬ Trespasses call db request := by
  have hfree : ∀ request, Untouched call.userId db (after call request db) →
      ¬ Trespasses call db request → (Untouched call.userId db (after call request db) ↔
        ¬ Trespasses call db request) := fun _ h h' => ⟨fun _ => h', fun _ => h⟩
  cases request with
  | detachChat id chatId => exact detachChat_untouched_iff id chatId
  | deleteProject id => exact deleteProject_untouched_iff id
  | malformed => exact hfree _ .refl not_false
  | getProjects => exact hfree _ .refl not_false
  | getProject id => exact hfree _ (withProject_untouched id fun _ _ _ => .refl) not_false
  | getSnapshots id branchId => exact hfree _ (getSnapshots_untouched id branchId) not_false
  | getSnapshot id snapshotId => exact hfree _ (getSnapshot_untouched id snapshotId) not_false
  | rollback id snapshotId branchId =>
    exact hfree _ (rollback_untouched id snapshotId branchId) not_false
  | createProject name description settings =>
    exact hfree _ (createProject_untouched name description settings) not_false
  | getBranches id =>
    exact hfree _ (withProject_untouched id fun project _ _ =>
      .of_extends (ensureMainBranch_extends project db)) not_false
  | createBranch id name fromSnapshotId =>
    exact hfree _ (createBranch_untouched id name fromSnapshotId) not_false
  | patchProject id name description settings =>
    exact hfree _ (patchProject_untouched id name description settings) not_false
  | attachChat id chatId => exact hfree _ (attachChat_untouched id chatId) not_false
  | getChats => exact hfree _ .refl not_false
  | getTimeline id limit cursor => exact hfree _ (getTimeline_untouched id limit cursor) not_false
  | getChat id => exact hfree _ (withChat_untouched id fun _ _ _ => .refl) not_false
  | createChat projectId branchId titleSeed =>
    exact hfree _ (createChat_untouched projectId branchId titleSeed) not_false
  | sendMessage id content => exact hfree _ (sendMessage_untouched id content) not_false
  | patchChat id title => exact hfree _ (patchChat_untouched id title) not_false
  | deleteChat id => exact hfree _ (deleteChat_untouched id) not_false

/-- User 1 has chat 5 in project 3; user 2 has the empty project 4. -/
def strangers : Database :=
  { Database.empty with
    members := [⟨9, 1, .owner⟩, ⟨9, 2, .member⟩]
    projects := [⟨3, some 9, 1, text "one", none, [5], none, 0, ⟨.react, .tailwind, .shadcn, none⟩, 0⟩,
      ⟨4, some 9, 2, text "two", none, [], none, 0, ⟨.react, .tailwind, .shadcn, none⟩, 0⟩]
    chats := [⟨5, 1, some 3, some 6, text "chat", [], 0, 0⟩]
    nextId := 10 }

def strangerCall : Call where
  userId := 2
  now := 1
  uuid := []
  defaultModelId := []
  modelIds := []
  bundleError _ := none
  runtime := ⟨fun _ => none, fun _ => []⟩

/-- User 2 takes the chat of user 1 out of project 4, and it leaves project 3. -/
theorem foreign_chat_detached : ¬ Untouched strangerCall.userId strangers
    (after strangerCall (.detachChat (toHexString 4) (toHexString 5)) strangers) := by
  intro h
  have hkept := h.chats 5 ⟨5, 1, some 3, some 6, text "chat", [], 0, 0⟩ rfl (by decide)
  revert hkept
  decide

end AppBuilder.Workspaces
