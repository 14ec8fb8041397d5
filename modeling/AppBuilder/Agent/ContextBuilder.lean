import AppBuilder.Agent.Types
import Mathlib.Algebra.Order.BigOperators.Group.List
import Mathlib.Algebra.Order.Group.Nat

/-! `buildAgentContext` of `agent/contextBuilder.ts`: what a limited number of characters takes of
a project. Strings are the lists of their UTF-16 code units, which `length` and `slice` count. -/
namespace AppBuilder.Agent.ContextBuilder

abbrev JsString := List UInt16

structure ProjectSettings where
  framework : JsString
  styling : JsString
  uiLibrary : JsString

structure ContextProject where
  name : JsString
  description : Option JsString
  settings : ProjectSettings

structure AgentContextMessage where
  role : JsString
  content : JsString
  deriving DecidableEq

structure AgentAttachment where
  id : JsString
  name : JsString
  mediaType : JsString
  size : ℕ
  content : JsString
  deriving DecidableEq

structure SourceFile where
  path : JsString
  content : JsString
  deriving DecidableEq

structure ContextBuilderInput where
  prompt : JsString
  mode : AgentRunMode
  project : ContextProject
  messages : List AgentContextMessage
  attachments : List AgentAttachment
  files : List SourceFile

structure ContextFile where
  path : JsString
  content : Option JsString
  deriving DecidableEq

/-- The `project` of a context names the framework `react` and the styling `tailwind`. -/
structure AgentContext where
  prompt : JsString
  mode : AgentRunMode
  projectName : JsString
  projectDescription : Option JsString
  uiLibrary : JsString
  messages : List AgentContextMessage
  attachments : List AgentAttachment
  files : List ContextFile

/-- `take(value)`: what is selected, and what remains. -/
def take (remaining : ℕ) (value : JsString) : JsString × ℕ :=
  let selected := value.take remaining
  (selected, remaining - selected.length)

/-- `values.map(..)` with a function that takes from what remains. -/
def takeEach {α β : Type} (f : ℕ → α → β × ℕ) : ℕ → List α → List β × ℕ
  | remaining, [] => ([], remaining)
  | remaining, x :: xs =>
    let (y, remaining) := f remaining x
    let (ys, remaining) := takeEach f remaining xs
    (y :: ys, remaining)

def takeDescription (remaining : ℕ) : Option JsString → Option JsString × ℕ
  | none => (none, remaining)
  | some description =>
    if description = [] then (none, remaining)
    else
      let (selected, remaining) := take remaining description
      (some selected, remaining)

/-- A file of the manifest: the path that was taken, and the file. -/
def takePath (remaining : ℕ) (file : SourceFile) : (JsString × SourceFile) × ℕ :=
  let (path, remaining) := take remaining file.path
  ((path, file), remaining)

/-- An attachment of the manifest: its name, its media type and the attachment. -/
def takeAttachment (remaining : ℕ) (attachment : AgentAttachment) :
    (JsString × JsString × AgentAttachment) × ℕ :=
  let (name, remaining) := take remaining attachment.name
  let (mediaType, remaining) := take remaining attachment.mediaType
  ((name, mediaType, attachment), remaining)

/-- The loop over the messages, the latest first. -/
def takeMessages (remaining : ℕ) (selectedMessages : List AgentContextMessage) :
    List AgentContextMessage → List AgentContextMessage × ℕ
  | [] => (selectedMessages, remaining)
  | message :: messages =>
    if remaining ≤ 0 then (selectedMessages, remaining)
    else
      let (content, remaining) := take remaining message.content
      takeMessages remaining (⟨message.role, content⟩ :: selectedMessages) messages

def takeAttachmentContent (remaining : ℕ) (attachment : JsString × JsString × AgentAttachment) :
    AgentAttachment × ℕ :=
  let (name, mediaType, original) := attachment
  let (content, remaining) := take remaining original.content
  (⟨original.id, name, mediaType, original.size, content⟩, remaining)

def takeContent (includeContents : Bool) (remaining : ℕ) (file : JsString × SourceFile) :
    ContextFile × ℕ :=
  if includeContents then
    let (content, remaining) := take remaining file.2.content
    (⟨file.1, some content⟩, remaining)
  else (⟨file.1, none⟩, remaining)

def buildAgentContext (localeCompare : JsString → JsString → Ordering)
    (input : ContextBuilderInput) (contextCharLimit : ℤ) : AgentContext :=
  let remaining := (max 0 contextCharLimit).toNat
  let (prompt, remaining) := take remaining input.prompt
  let (projectName, remaining) := take remaining input.project.name
  let (projectDescription, remaining) := takeDescription remaining input.project.description
  let (paths, remaining) := takeEach takePath remaining input.files
  let fileManifest := paths.filter fun file => 0 < file.1.length
  let (attachmentManifest, remaining) := takeEach takeAttachment remaining input.attachments
  let latest := input.messages.drop (input.messages.length - 20)
  let (selectedMessages, remaining) := takeMessages remaining [] latest.reverse
  let (attachments, remaining) := takeEach takeAttachmentContent remaining attachmentManifest
  let includeContents := fileManifest.all fun file => file.2.content.length ≤ remaining
  let (files, _) := takeEach (takeContent includeContents) remaining fileManifest
  { prompt := prompt
    mode := input.mode
    projectName := projectName
    projectDescription := projectDescription
    uiLibrary := input.project.settings.uiLibrary
    messages := selectedMessages
    attachments := attachments
    files := files.mergeSort fun left right => localeCompare left.path right.path != .gt }

/-! What is spent. -/

theorem take_remaining (remaining : ℕ) (value : JsString) :
    (take remaining value).2 = remaining - value.length := by
  have h : (take remaining value).2 = remaining - min remaining value.length := by
    simp [take]
  omega

theorem take_size (remaining : ℕ) (value : JsString) :
    (take remaining value).1.length + (take remaining value).2 = remaining := by
  have h : (take remaining value).1.length = min remaining value.length := by
    simp [take]
  rw [take_remaining]
  omega

theorem take_whole {remaining : ℕ} {value : JsString} (h : value.length ≤ remaining) :
    (take remaining value).1 = value := List.take_of_length_le h

section TakeEach
variable {α β : Type} {f : ℕ → α → β × ℕ}

theorem takeEach_remaining {c : α → ℕ}
    (h : ∀ remaining x, (f remaining x).2 = remaining - c x) (remaining : ℕ) (xs : List α) :
    (takeEach f remaining xs).2 = remaining - (xs.map c).sum := by
  induction xs generalizing remaining with
  | nil => simp [takeEach]
  | cons x xs ih =>
    have hx := ih (f remaining x).2
    rw [h, Nat.sub_sub] at hx
    simpa [takeEach, h] using hx

theorem takeEach_size {s : β → ℕ}
    (h : ∀ remaining x, s (f remaining x).1 + (f remaining x).2 = remaining) (remaining : ℕ)
    (xs : List α) :
    (((takeEach f remaining xs).1).map s).sum + (takeEach f remaining xs).2 = remaining := by
  induction xs generalizing remaining with
  | nil => simp [takeEach]
  | cons x xs ih =>
    have hx := h remaining x
    have hxs := ih (f remaining x).2
    simp only [takeEach, List.map_cons, List.sum_cons]
    omega

theorem takeEach_whole {c : α → ℕ} {w : α → β}
    (hcost : ∀ remaining x, (f remaining x).2 = remaining - c x)
    (hwhole : ∀ remaining x, c x ≤ remaining → (f remaining x).1 = w x) {remaining : ℕ}
    {xs : List α} (h : (xs.map c).sum ≤ remaining) :
    (takeEach f remaining xs).1 = xs.map w := by
  induction xs generalizing remaining with
  | nil => rfl
  | cons x xs ih =>
    rw [List.map_cons, List.sum_cons] at h
    have hx : (f remaining x).1 = w x := hwhole remaining x (by omega)
    have hxs : (takeEach f (f remaining x).2 xs).1 = xs.map w :=
      ih (by rw [hcost]; omega)
    simp only [takeEach, hx, hxs, List.map_cons]

theorem takeEach_map {γ : Type} {g : β → γ} {k : α → γ}
    (h : ∀ remaining x, g (f remaining x).1 = k x) (remaining : ℕ) (xs : List α) :
    (takeEach f remaining xs).1.map g = xs.map k := by
  induction xs generalizing remaining with
  | nil => rfl
  | cons x xs ih => simp only [takeEach, List.map_cons, h, ih]

end TakeEach

/-! What each part of the context costs, and the length it has. -/

def descriptionSize (description : Option JsString) : ℕ := (description.getD []).length

def attachmentCost (attachment : AgentAttachment) : ℕ :=
  attachment.name.length + attachment.mediaType.length

def contentSize (file : ContextFile) : ℕ := (file.content.getD []).length

theorem takeDescription_remaining (remaining : ℕ) (description : Option JsString) :
    (takeDescription remaining description).2 = remaining - descriptionSize description := by
  rcases description with _ | description
  · rfl
  · by_cases h : description = []
    · simp [takeDescription, descriptionSize, h]
    · simpa [takeDescription, descriptionSize, h] using take_remaining remaining description

theorem takeDescription_size (remaining : ℕ) (description : Option JsString) :
    descriptionSize (takeDescription remaining description).1
      + (takeDescription remaining description).2 = remaining := by
  rcases description with _ | description
  · simp [takeDescription, descriptionSize]
  · by_cases h : description = []
    · simp [takeDescription, descriptionSize, h]
    · simpa [takeDescription, descriptionSize, h] using take_size remaining description

theorem takePath_remaining (remaining : ℕ) (file : SourceFile) :
    (takePath remaining file).2 = remaining - file.path.length :=
  take_remaining remaining file.path

theorem takePath_size (remaining : ℕ) (file : SourceFile) :
    (takePath remaining file).1.1.length + (takePath remaining file).2 = remaining :=
  take_size remaining file.path

theorem takeAttachment_remaining (remaining : ℕ) (attachment : AgentAttachment) :
    (takeAttachment remaining attachment).2 = remaining - attachmentCost attachment := by
  simp only [takeAttachment, attachmentCost, take_remaining]
  omega

theorem takeAttachment_size (remaining : ℕ) (attachment : AgentAttachment) :
    ((takeAttachment remaining attachment).1.1.length
        + (takeAttachment remaining attachment).1.2.1.length)
      + (takeAttachment remaining attachment).2 = remaining := by
  have hname := take_size remaining attachment.name
  have htype := take_size (take remaining attachment.name).2 attachment.mediaType
  simp only [takeAttachment]
  omega

theorem takeAttachment_original (remaining : ℕ) (attachment : AgentAttachment) :
    (takeAttachment remaining attachment).1.2.2 = attachment := rfl

theorem takeMessages_remaining (remaining : ℕ) (selected messages : List AgentContextMessage) :
    (takeMessages remaining selected messages).2
      = remaining - (messages.map fun message => message.content.length).sum := by
  induction messages generalizing remaining selected with
  | nil => simp [takeMessages]
  | cons message messages ih =>
    by_cases h : remaining ≤ 0
    · simp only [takeMessages, if_pos h]
      omega
    · simp only [takeMessages, if_neg h, ih, take_remaining, List.map_cons, List.sum_cons]
      omega

theorem takeMessages_size (remaining : ℕ) (selected messages : List AgentContextMessage) :
    ((takeMessages remaining selected messages).1.map fun message => message.content.length).sum
        + (takeMessages remaining selected messages).2
      = (selected.map fun message => message.content.length).sum + remaining := by
  induction messages generalizing remaining selected with
  | nil => simp [takeMessages]
  | cons message messages ih =>
    by_cases h : remaining ≤ 0
    · simp [takeMessages, h]
    · have hmessage := take_size remaining message.content
      simp only [takeMessages, if_neg h, ih, List.map_cons, List.sum_cons]
      omega

theorem takeAttachmentContent_remaining (remaining : ℕ)
    (attachment : JsString × JsString × AgentAttachment) :
    (takeAttachmentContent remaining attachment).2
      = remaining - attachment.2.2.content.length :=
  take_remaining remaining attachment.2.2.content

theorem takeAttachmentContent_size (remaining : ℕ)
    (attachment : JsString × JsString × AgentAttachment) :
    (takeAttachmentContent remaining attachment).1.content.length
      + (takeAttachmentContent remaining attachment).2 = remaining :=
  take_size remaining attachment.2.2.content

theorem takeAttachmentContent_cost (remaining : ℕ)
    (attachment : JsString × JsString × AgentAttachment) :
    attachmentCost (takeAttachmentContent remaining attachment).1
      = attachment.1.length + attachment.2.1.length := rfl

theorem takeContent_remaining (remaining : ℕ) (file : JsString × SourceFile) :
    (takeContent true remaining file).2 = remaining - file.2.content.length :=
  take_remaining remaining file.2.content

theorem takeContent_size (includeContents : Bool) (remaining : ℕ) (file : JsString × SourceFile) :
    contentSize (takeContent includeContents remaining file).1
      + (takeContent includeContents remaining file).2 = remaining := by
  cases includeContents with
  | false => simp [takeContent, contentSize]
  | true => exact take_size remaining file.2.content

theorem takeContent_path (includeContents : Bool) (remaining : ℕ) (file : JsString × SourceFile) :
    (takeContent includeContents remaining file).1.path = file.1 := by
  cases includeContents <;> rfl

section Built
variable (localeCompare : JsString → JsString → Ordering) (input : ContextBuilderInput)
  (contextCharLimit : ℤ)

/-- The latest twenty messages of the chat. -/
def latestMessages : List AgentContextMessage := input.messages.drop (input.messages.length - 20)

def textsSize : ℕ :=
  input.prompt.length + input.project.name.length + descriptionSize input.project.description

def pathsSize (files : List SourceFile) : ℕ := (files.map fun file => file.path.length).sum

def contentsSize (files : List SourceFile) : ℕ := (files.map fun file => file.content.length).sum

/-- The characters left for the paths of the files. -/
def room : ℕ := contextCharLimit.toNat - textsSize input

/-- The characters left for the contents of the files. -/
def left : ℕ :=
  room input contextCharLimit
    - (pathsSize input.files + (input.attachments.map attachmentCost).sum
      + ((latestMessages input).map fun message => message.content.length).sum
      + (input.attachments.map fun attachment => attachment.content.length).sum)

/-- The files that the context lists: those with a path that is reached within the room. -/
def listed : ℕ → List SourceFile → List SourceFile
  | _, [] => []
  | room, file :: files =>
    if 0 < file.path.length ∧ 0 < room then file :: listed (room - file.path.length) files
    else listed (room - file.path.length) files

/-- The length of everything in a context that the limit is about. -/
def contextSize (context : AgentContext) : ℕ :=
  context.prompt.length + context.projectName.length + descriptionSize context.projectDescription
    + (context.files.map fun file => file.path.length + contentSize file).sum
    + (context.attachments.map fun attachment =>
        attachmentCost attachment + attachment.content.length).sum
    + (context.messages.map fun message => message.content.length).sum

/-- No file of the context has its content, or all files of the project have theirs in full. -/
def ContentsWhole (context : AgentContext) : Prop :=
  (∀ file ∈ context.files, file.content = none)
    ∨ context.files.Perm (input.files.map fun file => ⟨file.path, some file.content⟩)

def fileManifest (room : ℕ) (files : List SourceFile) : List (JsString × SourceFile) :=
  (takeEach takePath room files).1.filter fun file => 0 < file.1.length

theorem fileManifest_originals (room : ℕ) (files : List SourceFile) :
    (fileManifest room files).map Prod.snd = listed room files := by
  induction files generalizing room with
  | nil => rfl
  | cons file files ih =>
    have hrest := ih (room - file.path.length)
    have hpath : (takePath room file).1 = (file.path.take room, file) := rfl
    unfold fileManifest at hrest ⊢
    simp only [takeEach, takePath_remaining, hpath, List.filter_cons, List.length_take, listed]
    by_cases h : 0 < file.path.length ∧ 0 < room
    · have hmin : 0 < min room file.path.length := by omega
      simp [h, hmin, hrest]
    · have hmin : ¬0 < min room file.path.length := by omega
      simp only [hmin, decide_false, Bool.false_eq_true, if_false, if_neg h, hrest]

/-- The paths that are dropped are empty, so that they cost nothing. -/
theorem fileManifest_size (room : ℕ) (files : List SourceFile) :
    ((fileManifest room files).map fun file => file.1.length).sum
      = ((takeEach takePath room files).1.map fun file => file.1.length).sum := by
  unfold fileManifest
  induction (takeEach takePath room files).1 with
  | nil => rfl
  | cons file manifest ih =>
    by_cases h : 0 < file.1.length
    · simp only [List.filter_cons, h, decide_true, if_true, List.map_cons, List.sum_cons, ih]
    · have hzero : file.1.length = 0 := by omega
      have hdropped : (file :: manifest).filter (fun file => 0 < file.1.length)
          = manifest.filter fun file => 0 < file.1.length :=
        List.filter_cons_of_neg (by simpa using h)
      rw [hdropped, ih, List.map_cons, List.sum_cons, hzero, Nat.zero_add]

def attachmentManifest : List (JsString × JsString × AgentAttachment) × ℕ :=
  takeEach takeAttachment (room input contextCharLimit - pathsSize input.files) input.attachments

def selectedMessages : List AgentContextMessage × ℕ :=
  takeMessages (attachmentManifest input contextCharLimit).2 [] (latestMessages input).reverse

def attachmentContents : List AgentAttachment × ℕ :=
  takeEach takeAttachmentContent (selectedMessages input contextCharLimit).2
    (attachmentManifest input contextCharLimit).1

def includeContents : Bool :=
  (listed (room input contextCharLimit) input.files).all fun file =>
    file.content.length ≤ left input contextCharLimit

theorem attachmentManifest_originals :
    (attachmentManifest input contextCharLimit).1.map (fun attachment => attachment.2.2)
      = input.attachments := by
  have h := takeEach_map (g := fun attachment : JsString × JsString × AgentAttachment =>
    attachment.2.2) (k := id) takeAttachment_original
      (room input contextCharLimit - pathsSize input.files) input.attachments
  rwa [List.map_id] at h

theorem attachmentContents_remaining :
    (attachmentContents input contextCharLimit).2 = left input contextCharLimit := by
  have hcontents : ((attachmentManifest input contextCharLimit).1.map
        fun attachment => attachment.2.2.content.length)
      = input.attachments.map fun attachment => attachment.content.length := by
    conv_rhs => rw [← attachmentManifest_originals input contextCharLimit]
    rw [List.map_map]
    rfl
  have hmessages : ((latestMessages input).reverse.map fun message => message.content.length).sum
      = ((latestMessages input).map fun message => message.content.length).sum := by
    rw [List.map_reverse, List.sum_reverse]
  unfold attachmentContents selectedMessages
  rw [takeEach_remaining takeAttachmentContent_remaining, hcontents, takeMessages_remaining,
    hmessages]
  unfold attachmentManifest
  rw [takeEach_remaining takeAttachment_remaining]
  unfold left
  omega

theorem room_eq :
    (takeDescription (take (take (max 0 contextCharLimit).toNat input.prompt).2
      input.project.name).2 input.project.description).2 = room input contextCharLimit := by
  rw [takeDescription_remaining, take_remaining, take_remaining]
  unfold room textsSize
  omega

theorem fileManifest_all :
    ((fileManifest (room input contextCharLimit) input.files).all
        fun file => file.2.content.length ≤ left input contextCharLimit)
      = includeContents input contextCharLimit := by
  unfold includeContents
  rw [← fileManifest_originals, List.all_map]
  rfl

/-- The context in terms of the room for the paths and what is left for the contents. -/
theorem buildAgentContext_eq :
    buildAgentContext localeCompare input contextCharLimit =
      { prompt := (take (max 0 contextCharLimit).toNat input.prompt).1
        mode := input.mode
        projectName := (take (take (max 0 contextCharLimit).toNat input.prompt).2
          input.project.name).1
        projectDescription := (takeDescription (take (take (max 0 contextCharLimit).toNat
          input.prompt).2 input.project.name).2 input.project.description).1
        uiLibrary := input.project.settings.uiLibrary
        messages := (selectedMessages input contextCharLimit).1
        attachments := (attachmentContents input contextCharLimit).1
        files := (takeEach (takeContent (includeContents input contextCharLimit))
          (left input contextCharLimit)
          (fileManifest (room input contextCharLimit) input.files)).1.mergeSort
            fun left right => localeCompare left.path right.path != .gt } := by
  have hpaths : (takeEach takePath (room input contextCharLimit) input.files).2
      = room input contextCharLimit - pathsSize input.files :=
    takeEach_remaining takePath_remaining _ _
  rw [← attachmentContents_remaining, ← fileManifest_all, ← attachmentContents_remaining]
  unfold attachmentContents selectedMessages attachmentManifest fileManifest
  rw [← hpaths, ← room_eq]
  rfl

theorem files_size :
    ((buildAgentContext localeCompare input contextCharLimit).files.map fun file =>
        file.path.length + contentSize file).sum
      + (room input contextCharLimit - pathsSize input.files)
      ≤ room input contextCharLimit + left input contextCharLimit := by
  rw [buildAgentContext_eq]
  dsimp only
  rw [((List.mergeSort_perm _ _).map _).sum_eq, List.sum_map_add]
  have hpaths := takeEach_size (s := fun file : JsString × SourceFile => file.1.length)
    takePath_size (room input contextCharLimit) input.files
  rw [takeEach_remaining takePath_remaining, ← fileManifest_size] at hpaths
  have hcontents := takeEach_size (takeContent_size (includeContents input contextCharLimit))
    (left input contextCharLimit) (fileManifest (room input contextCharLimit) input.files)
  have hmap : ((takeEach (takeContent (includeContents input contextCharLimit))
        (left input contextCharLimit)
        (fileManifest (room input contextCharLimit) input.files)).1.map
          fun file => file.path.length)
      = (fileManifest (room input contextCharLimit) input.files).map fun file => file.1.length :=
    takeEach_map (fun remaining file => by rw [takeContent_path]) _ _
  rw [hmap]
  unfold pathsSize
  omega

theorem attachments_size :
    ((buildAgentContext localeCompare input contextCharLimit).attachments.map fun attachment =>
        attachmentCost attachment + attachment.content.length).sum
      + ((buildAgentContext localeCompare input contextCharLimit).messages.map fun message =>
          message.content.length).sum
      + left input contextCharLimit = room input contextCharLimit - pathsSize input.files := by
  rw [buildAgentContext_eq]
  dsimp only
  have hmanifest := takeEach_size (s := fun attachment : JsString × JsString × AgentAttachment =>
    attachment.1.length + attachment.2.1.length) takeAttachment_size
    (room input contextCharLimit - pathsSize input.files) input.attachments
  have hmessages := takeMessages_size (attachmentManifest input contextCharLimit).2 []
    (latestMessages input).reverse
  have hcontents := takeEach_size (s := fun attachment : AgentAttachment =>
    attachment.content.length) takeAttachmentContent_size
    (selectedMessages input contextCharLimit).2 (attachmentManifest input contextCharLimit).1
  have hcost : (attachmentContents input contextCharLimit).1.map attachmentCost
      = (attachmentManifest input contextCharLimit).1.map fun attachment =>
        attachment.1.length + attachment.2.1.length :=
    takeEach_map takeAttachmentContent_cost _ _
  have hremaining := attachmentContents_remaining input contextCharLimit
  rw [List.sum_map_add, hcost]
  unfold attachmentContents at hremaining ⊢
  unfold selectedMessages at hremaining hcontents ⊢
  unfold attachmentManifest at hremaining hcontents hmessages ⊢
  simp only [List.map_nil, List.sum_nil, Nat.zero_add] at hmessages
  omega

theorem texts_size :
    (buildAgentContext localeCompare input contextCharLimit).prompt.length
      + (buildAgentContext localeCompare input contextCharLimit).projectName.length
      + descriptionSize
          (buildAgentContext localeCompare input contextCharLimit).projectDescription
      + room input contextCharLimit = contextCharLimit.toNat := by
  rw [buildAgentContext_eq, ← room_eq]
  dsimp only
  have hprompt := take_size (max 0 contextCharLimit).toNat input.prompt
  have hname := take_size (take (max 0 contextCharLimit).toNat input.prompt).2 input.project.name
  have hdescription := takeDescription_size (take (take (max 0 contextCharLimit).toNat
    input.prompt).2 input.project.name).2 input.project.description
  omega

theorem contextSize_buildAgentContext_le :
    contextSize (buildAgentContext localeCompare input contextCharLimit)
      ≤ contextCharLimit.toNat := by
  have htexts := texts_size localeCompare input contextCharLimit
  have hattachments := attachments_size localeCompare input contextCharLimit
  have hfiles := files_size localeCompare input contextCharLimit
  unfold contextSize
  omega

/-- Where no file is listed, or one of them is longer than what is left, no content is given. -/
theorem contents_none
    (h : listed (room input contextCharLimit) input.files = []
      ∨ ∃ file ∈ listed (room input contextCharLimit) input.files,
          left input contextCharLimit < file.content.length) :
    ∀ file ∈ (buildAgentContext localeCompare input contextCharLimit).files,
      file.content = none := by
  intro file hfile
  rw [buildAgentContext_eq] at hfile
  dsimp only at hfile
  rw [List.mem_mergeSort] at hfile
  have horiginals := fileManifest_originals (room input contextCharLimit) input.files
  rcases h with hnone | ⟨long, hlong, hleft⟩
  · rw [hnone, List.map_eq_nil_iff] at horiginals
    rw [horiginals] at hfile
    simp [takeEach] at hfile
  · have hinclude : includeContents input contextCharLimit = false := by
      rw [includeContents, List.all_eq_false]
      exact ⟨long, hlong, by simpa using hleft⟩
    have hmap := takeEach_map (f := takeContent false) (g := ContextFile.content)
      (k := fun _ => none) (fun _ _ => rfl) (left input contextCharLimit)
      (fileManifest (room input contextCharLimit) input.files)
    rw [hinclude] at hfile
    have hcontent := List.mem_map_of_mem (f := ContextFile.content) hfile
    rw [hmap, List.mem_map] at hcontent
    obtain ⟨_, _, h⟩ := hcontent
    exact h.symm

theorem listed_all {room : ℕ} {files : List SourceFile} (hpaths : ∀ file ∈ files, file.path ≠ [])
    (hroom : pathsSize files ≤ room) : listed room files = files := by
  induction files generalizing room with
  | nil => rfl
  | cons file files ih =>
    have hlength : 0 < file.path.length := List.length_pos_iff.mpr (hpaths file List.mem_cons_self)
    unfold pathsSize at hroom
    rw [List.map_cons, List.sum_cons] at hroom
    have hrest : listed (room - file.path.length) files = files :=
      ih (fun file hfile => hpaths file (List.mem_cons_of_mem _ hfile)) (by
        unfold pathsSize
        omega)
    have hreached : 0 < file.path.length ∧ 0 < room := by omega
    rw [listed, if_pos hreached, hrest]

theorem fileManifest_all_listed {room : ℕ} {files : List SourceFile}
    (hpaths : ∀ file ∈ files, file.path ≠ []) (hroom : pathsSize files ≤ room) :
    fileManifest room files = files.map fun file => (file.path, file) := by
  have hwhole : (takeEach takePath room files).1 = files.map fun file => (file.path, file) :=
    takeEach_whole takePath_remaining
      (fun remaining file h => congrArg (·, file) (take_whole h)) hroom
  unfold fileManifest
  rw [hwhole, List.filter_eq_self]
  intro file hfile
  obtain ⟨original, horiginal, rfl⟩ := List.mem_map.mp hfile
  have hpath := List.length_pos_iff.mpr (hpaths original horiginal)
  simpa using hpath

/-- Where all paths fit in the room and all contents in what is left, every file is given. -/
theorem contents_all (hpaths : ∀ file ∈ input.files, file.path ≠ [])
    (hroom : pathsSize input.files ≤ room input contextCharLimit)
    (hleft : contentsSize input.files ≤ left input contextCharLimit) :
    (buildAgentContext localeCompare input contextCharLimit).files.Perm
      (input.files.map fun file => ⟨file.path, some file.content⟩) := by
  have hinclude : includeContents input contextCharLimit = true := by
    rw [includeContents, listed_all hpaths hroom, List.all_eq_true]
    intro file hfile
    have hfile : file.content.length ≤ contentsSize input.files :=
      List.le_sum_of_mem (List.mem_map_of_mem hfile)
    simpa using hfile.trans hleft
  have hcontents : (takeEach (takeContent true) (left input contextCharLimit)
        (input.files.map fun file => (file.path, file))).1
      = (input.files.map fun file => (file.path, file)).map fun file =>
          (⟨file.1, some file.2.content⟩ : ContextFile) := by
    refine takeEach_whole takeContent_remaining (fun remaining file h => ?_) ?_
    · simp only [takeContent, if_true, take_whole h]
    · rw [List.map_map]
      exact hleft
  rw [buildAgentContext_eq]
  dsimp only
  rw [hinclude, fileManifest_all_listed hpaths hroom, hcontents, List.map_map]
  exact List.mergeSort_perm _ _

theorem listed_sublist (room : ℕ) (files : List SourceFile) : (listed room files).Sublist files := by
  induction files generalizing room with
  | nil => exact List.Sublist.refl []
  | cons file files ih =>
    unfold listed
    by_cases h : 0 < file.path.length ∧ 0 < room
    · rw [if_pos h]
      exact (ih _).cons_cons file
    · rw [if_neg h]
      exact (ih _).cons file

theorem path_of_listed {room : ℕ} {files : List SourceFile} {file : SourceFile}
    (hfile : file ∈ listed room files) : file.path ≠ [] := by
  induction files generalizing room with
  | nil => cases hfile
  | cons first files ih =>
    unfold listed at hfile
    by_cases h : 0 < first.path.length ∧ 0 < room
    · rw [if_pos h, List.mem_cons] at hfile
      rcases hfile with rfl | hfile
      · exact List.length_pos_iff.mp h.1
      · exact ih hfile
    · rw [if_neg h] at hfile
      exact ih hfile

/-- What the contents of every file being given says about the sizes. -/
theorem fits_of_contents_all (hinclude : includeContents input contextCharLimit = true)
    (hperm : (buildAgentContext localeCompare input contextCharLimit).files.Perm
      (input.files.map fun file => ⟨file.path, some file.content⟩)) :
    (∀ file ∈ input.files, file.path ≠ [])
      ∧ pathsSize input.files ≤ room input contextCharLimit
      ∧ contentsSize input.files ≤ left input contextCharLimit := by
  rw [buildAgentContext_eq, hinclude] at hperm
  dsimp only at hperm
  have hfiles := (List.mergeSort_perm _ _).symm.trans hperm
  have horiginals := fileManifest_originals (room input contextCharLimit) input.files
  have hpaths : (((takeEach (takeContent true) (left input contextCharLimit)
        (fileManifest (room input contextCharLimit) input.files)).1).map ContextFile.path)
      = (fileManifest (room input contextCharLimit) input.files).map Prod.fst :=
    takeEach_map (takeContent_path true) _ _
  -- all files are listed
  have hlisted : listed (room input contextCharLimit) input.files = input.files := by
    refine (listed_sublist _ _).eq_of_length ?_
    have hlength := hfiles.length_eq
    rw [← List.length_map ContextFile.path, hpaths, List.length_map, List.length_map] at hlength
    rw [← horiginals, List.length_map, hlength]
  -- their paths are as long in the context as in the project
  have hpathsSize : ((fileManifest (room input contextCharLimit) input.files).map
      fun file => file.1.length).sum = pathsSize input.files := by
    have hsum := ((hfiles.map ContextFile.path).map List.length).sum_eq
    rw [hpaths, List.map_map, List.map_map, List.map_map] at hsum
    exact hsum
  have htaken := takeEach_size (s := fun file : JsString × SourceFile => file.1.length)
    takePath_size (room input contextCharLimit) input.files
  rw [takeEach_remaining takePath_remaining, ← fileManifest_size, hpathsSize] at htaken
  -- and so are their contents
  have hcontentsSize : ((takeEach (takeContent true) (left input contextCharLimit)
        (fileManifest (room input contextCharLimit) input.files)).1.map contentSize).sum
      = contentsSize input.files := by
    have hsum := (hfiles.map contentSize).sum_eq
    rw [List.map_map] at hsum
    exact hsum
  have hcontents := takeEach_size (takeContent_size true) (left input contextCharLimit)
    (fileManifest (room input contextCharLimit) input.files)
  have hcost : ((fileManifest (room input contextCharLimit) input.files).map
      fun file => file.2.content.length).sum = contentsSize input.files := by
    conv_rhs => rw [← hlisted, ← horiginals]
    rw [contentsSize, List.map_map]
    rfl
  rw [takeEach_remaining takeContent_remaining, hcontentsSize, hcost] at hcontents
  refine ⟨fun file hfile => path_of_listed (by rwa [hlisted]), ?_, ?_⟩
  · unfold pathsSize at htaken ⊢
    omega
  · omega

/-- Where some file is listed and contents are included, some content is given. -/
theorem exists_content (hinclude : includeContents input contextCharLimit = true)
    (hlisted : listed (room input contextCharLimit) input.files ≠ []) :
    ∃ file ∈ (buildAgentContext localeCompare input contextCharLimit).files,
      file.content ≠ none := by
  rw [buildAgentContext_eq, hinclude]
  dsimp only
  have horiginals := fileManifest_originals (room input contextCharLimit) input.files
  obtain ⟨file, files, hmanifest⟩ : ∃ file files,
      fileManifest (room input contextCharLimit) input.files = file :: files := by
    refine List.exists_cons_of_ne_nil fun hnil => hlisted ?_
    rw [← horiginals, hnil, List.map_nil]
  rw [hmanifest]
  refine ⟨(takeContent true (left input contextCharLimit) file).1, ?_, ?_⟩
  · rw [List.mem_mergeSort]
    exact List.mem_cons_self
  · exact Option.some_ne_none _

/-- The context is within its limit and gives no content or all contents in full exactly where the
limit is not negative and no file is listed, or a listed one is longer than what is left, or every
path is there and together they fit, and so do the contents. -/
theorem contents_whole_iff :
    ((contextSize (buildAgentContext localeCompare input contextCharLimit) : ℤ) ≤ contextCharLimit
        ∧ ContentsWhole input (buildAgentContext localeCompare input contextCharLimit))
      ↔ 0 ≤ contextCharLimit
        ∧ (listed (room input contextCharLimit) input.files = []
          ∨ (∃ file ∈ listed (room input contextCharLimit) input.files,
              left input contextCharLimit < file.content.length)
          ∨ (∀ file ∈ input.files, file.path ≠ [])
            ∧ pathsSize input.files ≤ room input contextCharLimit
            ∧ contentsSize input.files ≤ left input contextCharLimit) := by
  have hsize := contextSize_buildAgentContext_le localeCompare input contextCharLimit
  constructor
  · rintro ⟨hlimit, hwhole⟩
    refine ⟨by omega, ?_⟩
    by_cases hlisted : listed (room input contextCharLimit) input.files = []
    · exact .inl hlisted
    by_cases hinclude : includeContents input contextCharLimit = true
    · rcases hwhole with hnone | hall
      · obtain ⟨file, hfile, hcontent⟩ :=
          exists_content localeCompare input contextCharLimit hinclude hlisted
        exact absurd (hnone file hfile) hcontent
      · exact .inr (.inr (fits_of_contents_all localeCompare input contextCharLimit hinclude hall))
    · rw [Bool.not_eq_true, includeContents, List.all_eq_false] at hinclude
      obtain ⟨file, hfile, hlong⟩ := hinclude
      exact .inr (.inl ⟨file, hfile, by simpa using hlong⟩)
  · rintro ⟨hlimit, h⟩
    refine ⟨by omega, ?_⟩
    rcases h with hnone | hlong | ⟨hpaths, hroom, hleft⟩
    · exact .inl (contents_none localeCompare input contextCharLimit (.inl hnone))
    · exact .inl (contents_none localeCompare input contextCharLimit (.inr hlong))
    · exact .inr (contents_all localeCompare input contextCharLimit hpaths hroom hleft)

end Built

/-- Two files of five characters each, and six characters that are left for them. -/
def twoFiles : ContextBuilderInput where
  prompt := [0x70]
  mode := .edit
  project := ⟨[0x6e], none, ⟨[], [], []⟩⟩
  messages := []
  attachments := []
  files := [⟨[0x61], List.replicate 5 0x78⟩, ⟨[0x62], List.replicate 5 0x79⟩]

def compareUnits (left right : JsString) : Ordering :=
  compare (left.map UInt16.toNat) (right.map UInt16.toNat)

/-- The second file is cut to its first character. -/
theorem second_file_cut :
    ¬((contextSize (buildAgentContext compareUnits twoFiles 10) : ℤ) ≤ 10
      ∧ ContentsWhole twoFiles (buildAgentContext compareUnits twoFiles 10)) := by
  rintro ⟨-, hnone | hall⟩
  · obtain ⟨file, hfile, hcontent⟩ :=
      exists_content compareUnits twoFiles 10 (by decide) (by decide)
    exact hcontent (hnone file hfile)
  · have hfits := fits_of_contents_all compareUnits twoFiles 10 (by decide) hall
    have hleft : ¬contentsSize twoFiles.files ≤ left twoFiles 10 := by decide
    exact hleft hfits.2.2

end AppBuilder.Agent.ContextBuilder
