import AppBuilder.Encoding.JsonParse
import AppBuilder.Encoding.Path
import AppBuilder.Encoding.Utf8
import AppBuilder.Listing.Budget
import Mathlib.Data.List.Sort

/-! `agent/validation/cacheCleanup.ts`: the entries of the dependency cache that are removed because
they are old, and those that are removed because the cache is too large. -/
namespace AppBuilder.Agent.Validation
open Encoding Listing

/-- What a directory of the cache holds; `other` is neither a directory nor a regular file. -/
inductive CacheNode where
  | file (name : Text) (content : List ℕ)
  | directory (name : Text) (entries : List CacheNode)
  | other (name : Text)

def CacheNode.name : CacheNode → Text
  | .file name _ | .directory name _ | .other name => name

def CacheNode.isDirectory : CacheNode → Bool
  | .directory _ _ => true
  | .file _ _ | .other _ => false

mutual

def nodeSize : CacheNode → ℕ
  | .file _ content => content.length
  | .directory _ entries => directorySize entries
  | .other _ => 0

def directorySize : List CacheNode → ℕ
  | [] => 0
  | entry :: entries => nodeSize entry + directorySize entries

end

def named (entries : List CacheNode) (name : Text) : Option CacheNode :=
  entries.find? (·.name == name)

/-- The directory of the cache. -/
structure CacheRoot where
  entries : List CacheNode
  distinct : (entries.map CacheNode.name).Nodup

/-- `rm(path.join(root, name), { recursive: true, force: true })` -/
def CacheRoot.remove (root : CacheRoot) (name : Text) : CacheRoot where
  entries := root.entries.filter (·.name ≠ name)
  distinct := root.distinct.sublist (List.filter_sublist.map _)

/-- Whether `.locks/<name>.lock` exists. -/
def CacheRoot.locked (root : CacheRoot) (name : Text) : Bool :=
  match named root.entries (text ".locks") with
  | some (.directory _ entries) => (named entries (name ++ text ".lock")).isSome
  | _ => false

def CacheRoot.names (root : CacheRoot) : List Text :=
  (root.entries.filter fun entry => entry.isDirectory && !startsWith entry.name (text ".")).map
    CacheNode.name

structure CacheEntry (N : Type) where
  name : Text
  lastUsedAt : N
  bytes : ℕ
  deriving DecidableEq

variable {N : Type} (numbers : Json.NumberText N)

def readLastUsedAt (entries : List CacheNode) : Option N :=
  match named entries (text "complete.json") with
  | some (.file _ content) =>
    match Json.parse numbers (Utf8.decode content) with
    | some (.object members) =>
      match members.lookup (text "lastUsedAt") with
      | some (.number lastUsedAt) => some lastUsedAt
      | _ => none
    | _ => none
  | _ => none

def readEntry (root : CacheRoot) (name : Text) : Option (CacheEntry N) :=
  match named root.entries name with
  | some (.directory _ entries) =>
    (readLastUsedAt numbers entries).map fun lastUsedAt => ⟨name, lastUsedAt, directorySize entries⟩
  | _ => none

def readEntries (root : CacheRoot) : List (CacheEntry N) :=
  root.names.filterMap (readEntry numbers root)

section Directory

variable {numbers} {root : CacheRoot} {name other : Text} {entry : CacheEntry N}

theorem named_remove (h : other ≠ name) :
    named (root.remove name).entries other = named root.entries other := by
  change (root.entries.filter _).find? _ = root.entries.find? _
  rw [List.find?_filter]
  congr 1
  funext node
  by_cases hother : node.name = other
  · simp [hother, h]
  · simp [hother]

theorem readEntry_remove (h : other ≠ name) :
    readEntry numbers (root.remove name) other = readEntry numbers root other := by
  rw [readEntry, named_remove h]
  rfl

theorem name_of_readEntry (h : readEntry numbers root name = some entry) : entry.name = name := by
  unfold readEntry at h
  split at h
  · obtain ⟨lastUsedAt, -, rfl⟩ := Option.map_eq_some_iff.mp h
    rfl
  · cases h

theorem names_nodup : root.names.Nodup := root.distinct.sublist (List.filter_sublist.map _)

theorem names_visible (h : name ∈ root.names) : name ≠ text ".locks" := by
  rintro rfl
  obtain ⟨node, hnode, hname⟩ := List.mem_map.mp h
  have hstart := (List.mem_filter.mp hnode).2
  rw [hname] at hstart
  simp [startsWith, text] at hstart

theorem names_remove : (root.remove name).names = root.names.filter (· ≠ name) := by
  change ((root.entries.filter _).filter _).map _ = ((root.entries.filter _).map _).filter _
  rw [List.filter_map, List.filter_filter, List.filter_filter]
  congr 1
  refine List.filter_congr fun node _ => ?_
  rw [Bool.and_comm]
  rfl

theorem locked_remove (h : name ≠ text ".locks") :
    (root.remove name).locked other = root.locked other := by
  rw [CacheRoot.locked, named_remove h.symm]
  rfl

theorem mem_readEntries (h : entry ∈ readEntries numbers root) :
    entry.name ∈ root.names ∧ readEntry numbers root entry.name = some entry := by
  obtain ⟨name, hname, hentry⟩ := List.mem_filterMap.mp h
  rw [name_of_readEntry hentry]
  exact ⟨hname, hentry⟩

theorem readEntries_nodup : ((readEntries numbers root).map CacheEntry.name).Nodup := by
  have hnames : (readEntries numbers root).map CacheEntry.name =
      root.names.filter fun name => (readEntry numbers root name).isSome := by
    have hname : ∀ name, (readEntry numbers root name).map CacheEntry.name =
        Option.guard (fun name => (readEntry numbers root name).isSome) name := by
      intro name
      cases hentry : readEntry numbers root name with
      | none => simp [Option.guard, hentry]
      | some entry => simp [Option.guard, hentry, name_of_readEntry hentry]
    rw [readEntries, List.map_filterMap, ← List.filterMap_eq_filter]
    exact congrArg (root.names.filterMap ·) (funext hname)
  rw [hnames]
  exact names_nodup.sublist List.filter_sublist

/-- Removing an entry leaves the others as they are. -/
theorem readEntries_remove :
    readEntries numbers (root.remove name) =
      (readEntries numbers root).filter (·.name ≠ name) := by
  rw [readEntries, readEntries, names_remove, List.filterMap_filter, List.filter_filterMap]
  refine congrArg (root.names.filterMap ·) (funext fun other => ?_)
  by_cases hother : other = name
  · rw [if_neg (by simp [hother])]
    cases hentry : readEntry numbers root other with
    | none => rfl
    | some entry => rw [Option.filter_some, if_neg (by simp [name_of_readEntry hentry, hother])]
  · rw [if_pos (by simpa using hother), readEntry_remove hother]
    cases hentry : readEntry numbers root other with
    | none => rfl
    | some entry => rw [Option.filter_some, if_pos (by simp [name_of_readEntry hentry, hother])]

end Directory

/-- The directory and the variables of `cleanupDependencyCache`; `removed` is what was removed, in
this order. -/
structure Cleanup (N : Type) where
  root : CacheRoot
  totalBytes : ℤ
  removedEntries : ℕ
  removedBytes : ℕ
  removed : List (CacheEntry N)

def Cleanup.remove (s : Cleanup N) (entry : CacheEntry N) : Cleanup N where
  root := s.root.remove entry.name
  totalBytes := s.totalBytes - entry.bytes
  removedEntries := s.removedEntries + 1
  removedBytes := s.removedBytes + entry.bytes
  removed := s.removed ++ [entry]

variable [LinearOrder N]

def removeIfUnlocked (s : Cleanup N) (entry : CacheEntry N) : Bool × Cleanup N :=
  if s.root.locked entry.name then (false, s)
  else match readEntry numbers s.root entry.name with
  | none => (false, s)
  | some current =>
    if current.lastUsedAt ≠ entry.lastUsedAt then (false, s)
    else if s.root.locked entry.name then (false, s)
    else (true, s.remove entry)

def isExpired [Sub N] (now retentionMs : N) (entry : CacheEntry N) : Bool :=
  decide (retentionMs < now - entry.lastUsedAt)

/-- The first loop, and the entries that remain for the second one. -/
def removeExpired [Sub N] (now retentionMs : N) :
    Cleanup N → List (CacheEntry N) → Cleanup N × List (CacheEntry N)
  | s, [] => (s, [])
  | s, entry :: entries =>
    if isExpired now retentionMs entry then
      match removeIfUnlocked numbers s entry with
      | (true, s') => removeExpired now retentionMs s' entries
      | (false, s') =>
        let (s'', remaining) := removeExpired now retentionMs s' entries
        (s'', entry :: remaining)
    else
      let (s', remaining) := removeExpired now retentionMs s entries
      (s', entry :: remaining)

def removeOldest (maxBytes : ℕ) : Cleanup N → List (CacheEntry N) → Cleanup N
  | s, [] => s
  | s, entry :: entries =>
    if s.totalBytes ≤ maxBytes then s
    else removeOldest maxBytes (removeIfUnlocked numbers s entry).2 entries

def byLastUse (entries : List (CacheEntry N)) : List (CacheEntry N) :=
  entries.mergeSort fun a b => a.lastUsedAt ≤ b.lastUsedAt

def Cleanup.start (root : CacheRoot) : Cleanup N where
  root := root
  totalBytes := weight CacheEntry.bytes (readEntries numbers root)
  removedEntries := 0
  removedBytes := 0
  removed := []

/-- `cleanupDependencyCache` for a directory that exists. -/
def cleanupDependencyCache [Sub N] (root : CacheRoot) (retentionMs : N) (maxBytes : ℕ) (now : N) :
    Cleanup N :=
  let (s, remaining) := removeExpired numbers now retentionMs (.start numbers root)
    (byLastUse (readEntries numbers root))
  removeOldest numbers maxBytes s remaining

section Accounts

variable {numbers} {before kept todo : List (CacheEntry N)} {entry : CacheEntry N} {s : Cleanup N}

/-- The entries that are still there, and exact accounts of what was removed. -/
structure Accounts (numbers : Json.NumberText N) (before : List (CacheEntry N)) (s : Cleanup N)
    (kept : List (CacheEntry N)) : Prop where
  readable : (readEntries numbers s.root).Perm kept
  unlocked : ∀ entry ∈ kept, s.root.locked entry.name = false
  whole : (s.removed ++ kept).Perm before
  total : s.totalBytes = weight CacheEntry.bytes kept
  count : s.removedEntries = s.removed.length
  amount : s.removedBytes = weight CacheEntry.bytes s.removed

omit [LinearOrder N] in
theorem Accounts.perm {kept' : List (CacheEntry N)} (h : Accounts numbers before s kept)
    (hperm : kept.Perm kept') : Accounts numbers before s kept' where
  readable := h.readable.trans hperm
  unlocked entry hentry := h.unlocked entry (hperm.mem_iff.mpr hentry)
  whole := (hperm.symm.append_left s.removed).trans h.whole
  total := h.total.trans (congrArg Nat.cast (weight_perm hperm))
  count := h.count
  amount := h.amount

omit [LinearOrder N] in
theorem accounts_start {root : CacheRoot}
    (h : ∀ entry ∈ readEntries numbers root, root.locked entry.name = false) :
    Accounts numbers (readEntries numbers root) (.start numbers root)
      (readEntries numbers root) where
  readable := .refl _
  unlocked := h
  whole := .refl _
  total := rfl
  count := rfl
  amount := rfl

omit [LinearOrder N] in
theorem Accounts.remove (h : Accounts numbers before s (entry :: kept)) :
    Accounts numbers before (s.remove entry) kept := by
  have hname := (mem_readEntries (h.readable.mem_iff.mpr List.mem_cons_self)).1
  have hnodup := (h.readable.map CacheEntry.name).nodup_iff.mp readEntries_nodup
  have hothers : ∀ other ∈ kept, other.name ≠ entry.name := by
    intro other hother heq
    exact (List.nodup_cons.mp hnodup).1 (heq ▸ List.mem_map_of_mem hother)
  constructor
  case readable =>
    have hfilter := h.readable.filter fun other => other.name ≠ entry.name
    have hkept : kept.filter (fun other => other.name ≠ entry.name) = kept :=
      List.filter_eq_self.mpr fun other hother => by simpa using hothers other hother
    rw [List.filter_cons_of_neg (by simp), hkept] at hfilter
    change (readEntries numbers (s.root.remove entry.name)).Perm kept
    rw [readEntries_remove]
    exact hfilter
  case unlocked =>
    intro other hother
    exact (locked_remove (names_visible hname)).trans
      (h.unlocked other (List.mem_cons_of_mem entry hother))
  case whole =>
    have hwhole := h.whole
    rw [List.append_cons] at hwhole
    exact hwhole
  case total =>
    have htotal := h.total
    rw [weight_cons] at htotal
    change s.totalBytes - entry.bytes = _
    omega
  case count =>
    change s.removedEntries + 1 = (s.removed ++ [entry]).length
    rw [h.count, List.length_append, List.length_singleton]
  case amount =>
    change s.removedBytes + entry.bytes = weight CacheEntry.bytes (s.removed ++ [entry])
    rw [h.amount, weight_append]
    rfl

/-- With no lock and no other user every removal succeeds. -/
theorem Accounts.removeIfUnlocked_eq (h : Accounts numbers before s (entry :: kept)) :
    removeIfUnlocked numbers s entry = (true, s.remove entry) := by
  have hread := (mem_readEntries (h.readable.mem_iff.mpr List.mem_cons_self)).2
  have hunlocked := h.unlocked entry List.mem_cons_self
  simp [removeIfUnlocked, hread, hunlocked]

/-- The first loop removes what is out of retention, oldest first. -/
theorem Accounts.removeExpired [Sub N] (now retentionMs : N)
    (h : Accounts numbers before s (todo ++ kept)) :
    ∃ s', removeExpired numbers now retentionMs s todo =
        (s', todo.filter fun entry => !isExpired now retentionMs entry) ∧
      Accounts numbers before s'
        (todo.filter (fun entry => !isExpired now retentionMs entry) ++ kept) ∧
      s'.removed = s.removed ++ todo.filter (isExpired now retentionMs) := by
  induction todo generalizing s kept with
  | nil => exact ⟨s, rfl, h, by simp⟩
  | cons entry todo ih =>
    cases hexpired : isExpired now retentionMs entry with
    | true =>
      obtain ⟨s', hloop, haccounts, hremoved⟩ := ih h.remove
      rw [Validation.removeExpired, if_pos hexpired, h.removeIfUnlocked_eq,
        List.filter_cons_of_neg (by simp [hexpired]), List.filter_cons_of_pos hexpired]
      refine ⟨s', hloop, haccounts, ?_⟩
      rw [hremoved]
      simp [Cleanup.remove]
    | false =>
      obtain ⟨s', hloop, haccounts, hremoved⟩ := ih (h.perm List.perm_middle.symm)
      rw [Validation.removeExpired, if_neg (by simp [hexpired]), hloop,
        List.filter_cons_of_pos (by simp [hexpired]), List.filter_cons_of_neg (by simp [hexpired])]
      exact ⟨s', rfl, haccounts.perm List.perm_middle, hremoved⟩

/-- The second loop removes the entries that do not fit, in the order of the list. -/
theorem Accounts.removeOldest (maxBytes : ℕ) (h : Accounts numbers before s todo) :
    ∃ dropped, todo = dropped ++ dropOver CacheEntry.bytes maxBytes todo ∧
      Accounts numbers before (removeOldest numbers maxBytes s todo)
        (dropOver CacheEntry.bytes maxBytes todo) ∧
      (removeOldest numbers maxBytes s todo).removed = s.removed ++ dropped := by
  induction todo generalizing s with
  | nil => exact ⟨[], rfl, h, by simp [Validation.removeOldest]⟩
  | cons entry todo ih =>
    rw [Validation.removeOldest, dropOver, h.total]
    by_cases hfits : weight CacheEntry.bytes (entry :: todo) ≤ maxBytes
    · have hcast : (weight CacheEntry.bytes (entry :: todo) : ℤ) ≤ maxBytes := by
        exact_mod_cast hfits
      rw [if_pos hcast, if_pos hfits]
      exact ⟨[], rfl, h, by simp⟩
    · have hcast : ¬(weight CacheEntry.bytes (entry :: todo) : ℤ) ≤ maxBytes := by
        exact_mod_cast hfits
      rw [if_neg hcast, if_neg hfits, h.removeIfUnlocked_eq]
      obtain ⟨dropped, hsplit, haccounts, hremoved⟩ := ih h.remove
      refine ⟨entry :: dropped, by rw [List.cons_append, ← hsplit], haccounts, ?_⟩
      rw [hremoved]
      simp [Cleanup.remove]

end Accounts

section Outcome

variable [Sub N]

/-- What is left of the entries `before`, and what is reported. An entry that is removed within its
retention is removed for its size. -/
structure CleanedUp (before : List (CacheEntry N)) (retentionMs : N) (maxBytes : ℕ) (now : N)
    (s : Cleanup N) : Prop where
  whole : (s.removed ++ readEntries numbers s.root).Perm before
  withinRetention : ∀ entry ∈ readEntries numbers s.root, isExpired now retentionMs entry = false
  fits : weight CacheEntry.bytes (readEntries numbers s.root) ≤ maxBytes
  oldest : ∀ entry ∈ s.removed, isExpired now retentionMs entry = false →
    ∀ survivor ∈ readEntries numbers s.root, entry.lastUsedAt < survivor.lastUsedAt
  needed : ∀ entry ∈ s.removed.getLast?, isExpired now retentionMs entry = false →
    maxBytes < weight CacheEntry.bytes (readEntries numbers s.root) + entry.bytes
  count : s.removedEntries = s.removed.length
  amount : s.removedBytes = weight CacheEntry.bytes s.removed

omit [Sub N] in
theorem byLastUse_sorted {entries : List (CacheEntry N)}
    (h : (entries.map CacheEntry.lastUsedAt).Nodup) :
    (byLastUse entries).Pairwise fun a b => a.lastUsedAt < b.lastUsedAt := by
  have hle : (byLastUse entries).Pairwise fun a b => a.lastUsedAt ≤ b.lastUsedAt := by
    refine (List.pairwise_mergeSort (fun a b c hab hbc => ?_) (fun a b => ?_) entries).imp ?_
    · simp only [decide_eq_true_eq] at hab hbc ⊢
      exact hab.trans hbc
    · simpa using le_total a.lastUsedAt b.lastUsedAt
    · simp
  have hperm : (byLastUse entries).Perm entries := List.mergeSort_perm ..
  have hne : ((byLastUse entries).map CacheEntry.lastUsedAt).Nodup :=
    (hperm.map CacheEntry.lastUsedAt).nodup_iff.mpr h
  exact (hle.and (List.pairwise_map.mp hne)).imp fun h => lt_of_le_of_ne h.1 h.2

/-- The entries that remain are the most recently used ones that are within retention and fit, and
the report is exact. -/
theorem cleanupDependencyCache_spec {root : CacheRoot} {retentionMs now : N} {maxBytes : ℕ}
    (hunlocked : ∀ entry ∈ readEntries numbers root, root.locked entry.name = false)
    (hdistinct : ((readEntries numbers root).map CacheEntry.lastUsedAt).Nodup) :
    CleanedUp numbers (readEntries numbers root) retentionMs maxBytes now
      (cleanupDependencyCache numbers root retentionMs maxBytes now) := by
  have hsorted := byLastUse_sorted hdistinct
  have hperm : (byLastUse (readEntries numbers root)).Perm (readEntries numbers root) :=
    List.mergeSort_perm ..
  have hstart := (accounts_start hunlocked).perm hperm.symm
  rw [← List.append_nil (byLastUse _)] at hstart
  unfold cleanupDependencyCache
  generalize byLastUse (readEntries numbers root) = todo at hsorted hstart
  obtain ⟨s, hloop, haccounts, hexpired⟩ := hstart.removeExpired now retentionMs
  rw [hloop]
  dsimp only
  have hremaining : ∀ entry ∈ todo.filter fun entry => !isExpired now retentionMs entry,
      isExpired now retentionMs entry = false := by
    intro entry hentry
    simpa using (List.mem_filter.mp hentry).2
  have hsorted := hsorted.sublist
    (List.filter_sublist (p := fun entry => !isExpired now retentionMs entry))
  generalize (todo.filter fun entry => !isExpired now retentionMs entry) = remaining at *
  rw [List.append_nil] at haccounts
  obtain ⟨dropped, hsplit, hend, hremoved⟩ := haccounts.removeOldest maxBytes
  obtain ⟨dropped', hsplit', hlast⟩ :=
    @dropOver_split _ CacheEntry.bytes maxBytes remaining
  have hsame : dropped' = dropped := List.append_cancel_right (hsplit'.symm.trans hsplit)
  subst hsame
  have hmem : ∀ entry ∈ readEntries numbers (removeOldest numbers maxBytes s remaining).root,
      entry ∈ dropOver CacheEntry.bytes maxBytes remaining :=
    fun entry hentry => hend.readable.mem_iff.mp hentry
  have hout : ∀ entry ∈ s.removed, isExpired now retentionMs entry = true := by
    intro entry hentry
    rw [hexpired] at hentry
    exact (List.mem_filter.mp hentry).2
  constructor
  case whole => exact (hend.readable.append_left _).trans hend.whole
  case withinRetention =>
    intro entry hentry
    refine hremaining entry ?_
    rw [hsplit]
    exact List.mem_append_right _ (hmem entry hentry)
  case fits =>
    rw [weight_perm hend.readable]
    exact weight_dropOver
  case oldest =>
    intro entry hentry hwithin survivor hsurvivor
    rw [hremoved] at hentry
    rcases List.mem_append.mp hentry with hentry | hentry
    · rw [hout entry hentry] at hwithin
      cases hwithin
    · rw [hsplit] at hsorted
      exact (List.pairwise_append.mp hsorted).2.2 entry hentry survivor (hmem survivor hsurvivor)
  case needed =>
    intro entry hentry hwithin
    rw [weight_perm hend.readable]
    rw [hremoved, List.getLast?_append] at hentry
    cases hdropped : dropped'.getLast? with
    | some last =>
      rw [hdropped] at hentry
      exact hlast entry (hdropped ▸ hentry)
    | none =>
      rw [hdropped] at hentry
      rw [hout entry (List.mem_of_getLast? hentry)] at hwithin
      cases hwithin
  case count => exact hend.count
  case amount => exact hend.amount

end Outcome

private def cacheNode (name lastUsedAt : String) : CacheNode :=
  .directory (text name)
    [.file (text "complete.json")
        (Utf8.encode (text ("\x7b\"lastUsedAt\":" ++ lastUsedAt ++ "\x7d"))),
      .directory (text "node_modules") [.file (text "payload") [120, 120, 120, 120]]]

private def threeEntries : CacheRoot where
  entries := [cacheNode "middle" "800", cacheNode "expired" "100", cacheNode "newest" "900",
    .directory (text ".locks") [.file (text "other.lock") []]]
  distinct := by decide

theorem cleanupDependencyCache_three : (readEntries Json.rationals threeEntries).length = 3 ∧
    CleanedUp Json.rationals (readEntries Json.rationals threeEntries) 500 30 1000
      (cleanupDependencyCache Json.rationals threeEntries 500 30 1000) :=
  ⟨by decide +kernel,
    cleanupDependencyCache_spec Json.rationals (by decide +kernel) (by decide +kernel)⟩

end AppBuilder.Agent.Validation
