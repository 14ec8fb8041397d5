import AppBuilder.Encoding.Hex
import AppBuilder.Encoding.Path
import AppBuilder.Store.World

/-! The documents behind the project and chat routes, and how requests spell their ids. -/
namespace AppBuilder.Workspaces
open Agent Store Encoding

/-- `ObjectId.toHexString`. The ids of the database have 24 digits. -/
def toHexString (id : ObjectId) : Text := Hex.digits (max 24 (Nat.log 16 id + 1)) id

/-- A text of 24 hexadecimal digits in either case is cast to the id it spells. -/
def castObjectId (s : Text) : Option ObjectId := if s.length = 24 then Hex.number s else none

theorem number_toHexString (id : ObjectId) : Hex.number (toHexString id) = some id := by
  refine Hex.number_digits _ _ ?_
  calc id < 16 ^ (Nat.log 16 id + 1) := Nat.lt_pow_succ_log_self (by decide) id
    _ ≤ 16 ^ max 24 (Nat.log 16 id + 1) := Nat.pow_le_pow_right (by decide) (le_max_right _ _)

theorem toHexString_injective : Function.Injective toHexString := by
  intro a b h
  have hb := number_toHexString b
  rw [← h, number_toHexString] at hb
  exact Option.some.inj hb

theorem castObjectId_toHexString {id : ObjectId} (hid : id < 16 ^ 24) :
    castObjectId (toHexString id) = some id := by
  have hlog : Nat.log 16 id + 1 ≤ 24 := by
    rcases Nat.eq_zero_or_pos id with rfl | hpos
    · decide
    · exact (Nat.log_lt_iff_lt_pow (by decide) hpos.ne').mpr hid
  rw [castObjectId, if_pos, number_toHexString]
  rw [toHexString, Hex.length_digits, max_eq_left hlog]

structure User where
  _id : ObjectId
  createdAt : Time
  deriving DecidableEq

structure Workspace where
  _id : ObjectId
  slug : String
  name : String
  createdByUserId : ObjectId
  deriving DecidableEq

inductive WorkspaceRole where
  | owner
  | admin
  | member
  deriving DecidableEq

structure WorkspaceMember where
  workspaceId : ObjectId
  userId : ObjectId
  role : WorkspaceRole
  deriving DecidableEq

inductive Framework where
  | react
  | vue
  | svelte
  deriving DecidableEq

inductive Styling where
  | tailwind
  | cssModules
  | styledComponents
  deriving DecidableEq

inductive UiLibrary where
  | shadcn
  | mui
  | antd
  | none
  deriving DecidableEq

structure ProjectSettings where
  framework : Framework
  styling : Styling
  uiLibrary : UiLibrary
  agentModelId : Option Text
  deriving DecidableEq

structure Project where
  _id : ObjectId
  workspaceId : Option ObjectId
  userId : ObjectId
  name : Text
  description : Option Text
  chatIds : List ObjectId
  activeSnapshotId : Option ObjectId
  activeSnapshotRevision : ℕ
  settings : ProjectSettings
  updatedAt : Time
  deriving DecidableEq

structure Message where
  id : Text
  role : String
  content : Text
  createdAt : Time
  deriving DecidableEq

structure Chat where
  _id : ObjectId
  userId : ObjectId
  projectId : Option ObjectId
  branchId : Option ObjectId
  title : Text
  messages : List Message
  createdAt : Time
  updatedAt : Time
  deriving DecidableEq

structure AgentAttachment where
  id : String
  name : String
  mediaType : String
  size : ℕ
  deriving DecidableEq

/-- A run with the fields that only the timeline reads. -/
structure TimelineRun extends AgentRun where
  attachments : List AgentAttachment
  modelId : Option String
  modelProvider : Option String
  model : String
  createdAt : Time
  deriving DecidableEq

instance : Document User := ⟨User._id⟩
instance : Document Project := ⟨Project._id⟩
instance : Document Chat := ⟨Chat._id⟩

@[simp] theorem docId_project (d : Project) : docId d = d._id := rfl
@[simp] theorem docId_chat (d : Chat) : docId d = d._id := rfl

structure Database where
  users : List User
  workspaces : List Workspace
  members : List WorkspaceMember
  projects : List Project
  branches : List ProjectBranch
  chats : List Chat
  runs : List TimelineRun
  events : List AgentEvent
  snapshots : List ProjectSnapshot
  nextId : ObjectId
  deriving DecidableEq

namespace Database

def empty : Database := ⟨[], [], [], [], [], [], [], [], [], 1⟩

def chat? (db : Database) (id : ObjectId) : Option Chat := findById db.chats id

def project? (db : Database) (id : ObjectId) : Option Project := findById db.projects id

def branch? (db : Database) (id : ObjectId) : Option ProjectBranch := findById db.branches id

end Database

end AppBuilder.Workspaces
