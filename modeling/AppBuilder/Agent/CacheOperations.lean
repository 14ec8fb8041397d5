import AppBuilder.Agent.DependencyCache
import Mathlib.Data.List.Basic

/-! What one operation of `prepare` does to the cache, and what the call knows before and after it. -/
namespace AppBuilder.Agent.Validation
namespace DependencyCache

section Statement

def Cache.Whole (s : Cache) (fingerprint : Fingerprint) : Prop :=
  ∃ lastUsedAt, s.entries fingerprint = some ⟨some lastUsedAt, some (.whole fingerprint)⟩

/-- A call for the entry is under way, or a workspace is linked to it. -/
def Cache.InUse (s : Cache) (fingerprint : Fingerprint) : Prop :=
  (∃ call ∈ s.calls, call.fingerprint = fingerprint ∧ call.live = true) ∨
    ∃ link ∈ s.links, link.2 = fingerprint

/-- A removal starts when its entry is not in use and does not fail, and no call for an entry starts
before its removal has ended. -/
def Apart (s : Cache) : Label → Prop
  | .prepare fingerprint _ =>
    ∀ sweep ∈ s.sweeps, sweep.name = fingerprint → sweep.stage ≠ .remove
  | .advanceSweep j succeeds => ∀ sweep ∈ s.sweeping j,
    (sweep.stage = .recheckLock → ¬s.InUse sweep.name) ∧ (sweep.stage = .remove → succeeds = true)
  | _ => True

end Statement

section Invariant

/-- The workspace of a call leads to its entry, or has been removed. -/
def Linked (s : Cache) (call : Call) : Prop :=
  (call.workspacePath, call.fingerprint) ∈ s.links ∨ call.workspacePath ∈ s.discarded

/-- What a call has learnt that still holds. -/
def Knows (s : Cache) (call : Call) : Prop :=
  match call.stage with
  | .lookModules | .waitModules | .mark | .markWrite | .link .hit => s.Whole call.fingerprint
  | .lockedComplete => call.holding = true
  | .lockedModules => call.holding = true ∧ s.Whole call.fingerprint
  | .makeStaging => call.holding = true ∧ s.entries call.fingerprint = none
  | .install => call.holding = true ∧ s.entries call.fingerprint = none ∧
      ∃ id ∈ call.stagingPath, ∃ modules, s.staging id = some ⟨none, modules⟩
  | .stagedModules => call.holding = true ∧ s.entries call.fingerprint = none ∧
      ∃ id ∈ call.stagingPath, s.staging id = some ⟨none, none⟩ ∨
        s.staging id = some ⟨none, some (.whole call.fingerprint)⟩
  | .stageComplete => call.holding = true ∧ s.entries call.fingerprint = none ∧
      ∃ id ∈ call.stagingPath, s.staging id = some ⟨none, some (.whole call.fingerprint)⟩
  | .removeEntry | .rename => call.holding = true ∧ s.entries call.fingerprint = none ∧
      ∃ id ∈ call.stagingPath, ∃ lastUsedAt,
        s.staging id = some ⟨some lastUsedAt, some (.whole call.fingerprint)⟩
  | .link .miss => call.holding = true ∧ s.Whole call.fingerprint
  | .removeStaging outcome | .closeLock outcome | .unlock outcome =>
    call.holding = true ∧ (outcome.isOk = true → Linked s call)
  | .settled outcome => outcome.isOk = true → Linked s call
  | .makeDirectories | .lookComplete | .openLock | .waitComplete | .delay => True

/-- What the others leave of the facts that a call relies on. -/
structure Rely (s s' : Cache) (call : Call) : Prop where
  whole : s.Whole call.fingerprint → s'.Whole call.fingerprint
  absent : call.holding = true → s.entries call.fingerprint = none →
    s'.entries call.fingerprint = none
  staging : ∀ id ∈ call.stagingPath, s'.staging id = s.staging id
  linked : Linked s call → Linked s' call

theorem Knows.rely {s s' : Cache} {call : Call} (h : Knows s call) (hr : Rely s s' call) :
    Knows s' call := by
  obtain ⟨fingerprint, workspacePath, stage, startedAt, holding, stagingPath, crashed⟩ := call
  cases stage with
  | lookModules | waitModules | mark | markWrite => exact hr.whole h
  | link cache =>
    cases cache with
    | hit => exact hr.whole h
    | miss => exact ⟨h.1, hr.whole h.2⟩
  | lockedComplete => exact h
  | lockedModules => exact ⟨h.1, hr.whole h.2⟩
  | makeStaging => exact ⟨h.1, hr.absent h.1 h.2⟩
  | install | stagedModules | stageComplete | removeEntry | rename =>
    obtain ⟨hholding, habsent, id, hid, hstaged⟩ := h
    refine ⟨hholding, hr.absent hholding habsent, id, hid, ?_⟩
    rw [hr.staging id hid]
    exact hstaged
  | removeStaging outcome | closeLock outcome | unlock outcome =>
    exact ⟨h.1, fun hok => hr.linked (h.2 hok)⟩
  | settled outcome => exact fun hok => hr.linked (h hok)
  | makeDirectories | lookComplete | openLock | waitComplete | delay => trivial

structure Lawful (s : Cache) : Prop where
  entry : ∀ fingerprint, s.Whole fingerprint ∨ s.entries fingerprint = none ∨
    ∃ sweep ∈ s.sweeps, sweep.name = fingerprint ∧ sweep.stage = .remove
  apart : ∀ sweep ∈ s.sweeps, sweep.stage = .remove → ¬s.InUse sweep.name
  links : ∀ link ∈ s.links, s.Whole link.2
  knows : ∀ call ∈ s.calls, call.crashed = false → Knows s call
  held : ∀ call ∈ s.calls, call.holding = true → s.locks call.fingerprint = true
  owned : ∀ fingerprint, s.locks fingerprint = true →
    ∃ call ∈ s.calls, call.fingerprint = fingerprint ∧ call.holding = true
  one : ∀ (i j : ℕ) (a b : Call), s.calls[i]? = some a → s.calls[j]? = some b → a.fingerprint = b.fingerprint →
    a.holding = true → b.holding = true → i = j
  staged : ∀ call ∈ s.calls, ∀ id ∈ call.stagingPath, id < s.nextStaging
  distinct : ∀ (i j : ℕ) (a b : Call) (id : ℕ), s.calls[i]? = some a → s.calls[j]? = some b → a.stagingPath = some id →
    b.stagingPath = some id → i = j

end Invariant

section Effects

variable {s s' : Cache} {call next : Call} {lockTimeoutMs : ℕ}

/-- What an operation of a call does, and what the call knows then. -/
structure Touches (s s' : Cache) (call next : Call) : Prop where
  fingerprint : next.fingerprint = call.fingerprint
  calls : s'.calls = s.calls
  sweeps : s'.sweeps = s.sweeps
  discarded : s'.discarded = s.discarded
  others : ∀ fingerprint, fingerprint ≠ call.fingerprint →
    s'.entries fingerprint = s.entries fingerprint
  entry : s'.Whole call.fingerprint ∨ s'.entries call.fingerprint = none
  whole : s.Whole call.fingerprint → s'.Whole call.fingerprint
  absent : call.holding = false → s.entries call.fingerprint = none →
    s'.entries call.fingerprint = none
  links : s'.links = s.links ∨
    s'.links = s.links ++ [(call.workspacePath, call.fingerprint)] ∧ s'.Whole call.fingerprint
  staging : ∀ id < s.nextStaging, call.stagingPath ≠ some id → s'.staging id = s.staging id
  grows : s.nextStaging ≤ s'.nextStaging
  staged : ∀ id ∈ next.stagingPath, id < s'.nextStaging ∧
    (call.stagingPath = some id ∨ s.nextStaging ≤ id)
  otherLocks : ∀ fingerprint, fingerprint ≠ call.fingerprint →
    s'.locks fingerprint = s.locks fingerprint
  locked : call.holding = false → s.locks call.fingerprint = true →
    s'.locks call.fingerprint = true
  held : next.holding = true → s'.locks call.fingerprint = true ∧
    (call.holding = true ∨ s.locks call.fingerprint = false)
  owned : s'.locks call.fingerprint = true → next.holding = true ∨
    call.holding = false ∧ s.locks call.fingerprint = true
  knows : Knows s' next

/-- What holds of a call in a lawful state. -/
structure Able (s : Cache) (call : Call) : Prop where
  entry : s.Whole call.fingerprint ∨ s.entries call.fingerprint = none
  held : call.holding = true → s.locks call.fingerprint = true
  staged : ∀ id ∈ call.stagingPath, id < s.nextStaging
  knows : Knows s call

theorem holding_or (h : s.locks call.fingerprint = true) :
    call.holding = true ∨ call.holding = false ∧ s.locks call.fingerprint = true := by
  cases call.holding with
  | true => exact .inl rfl
  | false => exact .inr ⟨rfl, h⟩

variable (ha : Able s call)
include ha

theorem touches_next {stage : Stage} {startedAt : Time} {crashed : Bool}
    (hk : Knows s { call with stage, startedAt, crashed }) :
    Touches s s call { call with stage, startedAt, crashed } where
  fingerprint := rfl
  calls := rfl
  sweeps := rfl
  discarded := rfl
  others _ _ := rfl
  entry := ha.entry
  whole := id
  absent _ := id
  links := .inl rfl
  staging _ _ _ := rfl
  grows := Nat.le_refl _
  staged id hid := ⟨ha.staged id hid, .inl hid⟩
  otherLocks _ _ := rfl
  locked _ := id
  held h := ⟨ha.held h, .inl h⟩
  owned := holding_or
  knows := hk

theorem touches_at {stage : Stage} (hk : Knows s (call.at stage)) :
    Touches s s call (call.at stage) :=
  touches_next ha hk

/-- An operation on the entry. -/
theorem touches_entry {folder : Option Folder} {stage : Stage}
    (hentry : (s.setEntry call.fingerprint folder).Whole call.fingerprint ∨ folder = none)
    (hwhole : s.Whole call.fingerprint →
      (s.setEntry call.fingerprint folder).Whole call.fingerprint)
    (habsent : s.entries call.fingerprint = none → folder = none)
    (hk : Knows (s.setEntry call.fingerprint folder) (call.at stage)) :
    Touches s (s.setEntry call.fingerprint folder) call (call.at stage) where
  fingerprint := rfl
  calls := rfl
  sweeps := rfl
  discarded := rfl
  others _ hf := setEntry_of_ne s hf folder
  entry := hentry.imp id fun h => (setEntry_self ..).trans h
  whole := hwhole
  absent _ h := (setEntry_self ..).trans (habsent h)
  links := .inl rfl
  staging _ _ _ := rfl
  grows := Nat.le_refl _
  staged id hid := ⟨ha.staged id hid, .inl hid⟩
  otherLocks _ _ := rfl
  locked _ := id
  held h := ⟨ha.held h, .inl h⟩
  owned := holding_or
  knows := hk

/-- An operation on the staging directory of the call. -/
theorem touches_staging {id : ℕ} {folder : Option Folder} {stage : Stage}
    (hid : call.stagingPath = some id)
    (hk : Knows (s.setStaging id folder) (call.at stage)) :
    Touches s (s.setStaging id folder) call (call.at stage) where
  fingerprint := rfl
  calls := rfl
  sweeps := rfl
  discarded := rfl
  others _ _ := rfl
  entry := ha.entry
  whole h := h
  absent _ h := h
  links := .inl rfl
  staging _ _ hne := setStaging_of_ne s (fun h => hne (hid.trans (congrArg some h.symm))) folder
  grows := Nat.le_refl _
  staged id' hid' := ⟨ha.staged id' hid', .inl hid'⟩
  otherLocks _ _ := rfl
  locked _ := fun h => h
  held h := ⟨ha.held h, .inl h⟩
  owned := holding_or
  knows := hk

omit ha in
theorem finish_knows {outcome : Outcome} (h : outcome.isOk = true → Linked s call) :
    Knows s (call.finish outcome) := by
  unfold Call.finish
  split
  · exact h
  · next hholding =>
    rw [Bool.not_eq_true, Bool.not_eq_false'] at hholding
    split
    · exact ⟨hholding, h⟩
    · exact ⟨hholding, h⟩

/-- A call goes on to its end. -/
theorem touches_finish {outcome : Outcome} (h : outcome.isOk = true → Linked s call) :
    Touches s s call (call.finish outcome) :=
  touches_at ha (finish_knows h)

theorem touches_fail (error : PrepareError) : Touches s s call (call.fail error) :=
  touches_finish ha (by rintro ⟨⟩)

theorem hasComplete_iff : s.hasComplete call.fingerprint = true ↔ s.Whole call.fingerprint := by
  rcases ha.entry with ⟨t, ht⟩ | hnone
  · exact iff_of_true (by rw [Cache.hasComplete, ht]; rfl) ⟨t, ht⟩
  · refine iff_of_false (by rw [Cache.hasComplete, hnone]; exact Bool.false_ne_true) ?_
    rintro ⟨t, ht⟩
    rw [hnone] at ht
    cases ht

omit ha in
theorem Cache.Whole.hasModules (h : s.Whole call.fingerprint) :
    s.hasModules call.fingerprint = true := by
  obtain ⟨t, ht⟩ := h
  rw [Cache.hasModules, ht]
  rfl

/-- The call waits for the lock, or takes it. -/
theorem touches_openLock (hstage : call.stage = .openLock)
    (h : s.advance lockTimeoutMs call = some (s', next)) : Touches s s' call next := by
  rw [Cache.advance, hstage] at h
  dsimp only at h
  split_ifs at h with hlocked
  · cases h
    exact touches_at ha trivial
  · cases h
    rw [Bool.not_eq_true] at hlocked
    exact {
      fingerprint := rfl
      calls := rfl
      sweeps := rfl
      discarded := rfl
      others := fun _ _ => rfl
      entry := ha.entry
      whole := fun h => h
      absent := fun _ h => h
      links := .inl rfl
      staging := fun _ _ _ => rfl
      grows := Nat.le_refl _
      staged := fun id hid => ⟨ha.staged id hid, .inl hid⟩
      otherLocks := fun f hf => Function.update_of_ne hf true s.locks
      locked := fun _ _ => Function.update_self call.fingerprint true s.locks
      held := fun _ => ⟨Function.update_self call.fingerprint true s.locks, .inr hlocked⟩
      owned := fun _ => .inl rfl
      knows := rfl }

theorem touches_makeStaging (hstage : call.stage = .makeStaging)
    (h : s.advance lockTimeoutMs call = some (s', next)) : Touches s s' call next := by
  have hk := ha.knows
  rw [Knows, hstage] at hk
  rw [Cache.advance, hstage] at h
  cases h
  exact {
    fingerprint := rfl
    calls := rfl
    sweeps := rfl
    discarded := rfl
    others := fun _ _ => rfl
    entry := ha.entry
    whole := fun h => h
    absent := fun _ h => h
    links := .inl rfl
    staging := fun id hid _ => setStaging_of_ne s (Nat.ne_of_lt hid) _
    grows := Nat.le_succ _
    staged := by
      rintro _ ⟨⟩
      exact ⟨Nat.lt_succ_self _, .inr (Nat.le_refl _)⟩
    otherLocks := fun _ _ => rfl
    locked := fun _ h => h
    held := fun _ => ⟨ha.held hk.1, .inl hk.1⟩
    owned := holding_or
    knows := ⟨hk.1, hk.2, s.nextStaging, rfl, none, setStaging_self ..⟩ }

/-- The staging directory becomes the entry. -/
theorem touches_rename (hstage : call.stage = .rename)
    (h : s.advance lockTimeoutMs call = some (s', next)) : Touches s s' call next := by
  have hk := ha.knows
  rw [Knows, hstage] at hk
  obtain ⟨hholding, habsent, id, hid, t, ht⟩ := hk
  rw [Option.mem_def] at hid
  rw [Cache.advance, hstage, hid, habsent] at h
  cases h
  have hwhole : ((s.setEntry call.fingerprint (s.staging id)).setStaging id none).Whole
      call.fingerprint := ⟨t, (setEntry_self ..).trans ht⟩
  exact {
    fingerprint := rfl
    calls := rfl
    sweeps := rfl
    discarded := rfl
    others := fun f hf => setEntry_of_ne s hf _
    entry := .inl hwhole
    whole := fun _ => hwhole
    absent := fun hnot => absurd (hholding.symm.trans hnot) Bool.false_ne_true.symm
    links := .inl rfl
    staging := fun id' _ hne => setStaging_of_ne _ (fun heq => hne (hid.trans (congrArg some heq.symm))) _
    grows := Nat.le_refl _
    staged := by rintro _ ⟨⟩
    otherLocks := fun _ _ => rfl
    locked := fun _ h => h
    held := fun _ => ⟨ha.held hholding, .inl hholding⟩
    owned := holding_or
    knows := ⟨hholding, hwhole⟩ }

theorem touches_link {cache : CacheUse} (hstage : call.stage = .link cache)
    (h : s.advance lockTimeoutMs call = some (s', next)) : Touches s s' call next := by
  have hwhole : s.Whole call.fingerprint := by
    have hk := ha.knows
    rw [Knows, hstage] at hk
    cases cache with
    | hit => exact hk
    | miss => exact hk.2
  rw [Cache.advance, hstage] at h
  dsimp only at h
  split_ifs at h
  · cases h
    have hlinked : Linked
        { s with links := s.links ++ [(call.workspacePath, call.fingerprint)] } call :=
      .inl (List.mem_append_right _ (List.mem_singleton_self _))
    exact {
      fingerprint := rfl
      calls := rfl
      sweeps := rfl
      discarded := rfl
      others := fun _ _ => rfl
      entry := .inl hwhole
      whole := fun h => h
      absent := fun _ h => h
      links := .inr ⟨rfl, hwhole⟩
      staging := fun _ _ _ => rfl
      grows := Nat.le_refl _
      staged := fun id hid => ⟨ha.staged id hid, .inl hid⟩
      otherLocks := fun _ _ => rfl
      locked := fun _ h => h
      held := fun hholding => ⟨ha.held hholding, .inl hholding⟩
      owned := fun hlocked => @holding_or s call hlocked
      knows := finish_knows fun _ => hlinked }
  · cases h
    exact touches_fail ha _

theorem touches_removeStaging {outcome : Outcome} (hstage : call.stage = .removeStaging outcome)
    (h : s.advance lockTimeoutMs call = some (s', next)) : Touches s s' call next := by
  have hk := ha.knows
  rw [Knows, hstage] at hk
  rw [Cache.advance, hstage] at h
  obtain ⟨id, hid, h⟩ := Option.map_eq_some_iff.mp h
  cases h
  exact {
    fingerprint := rfl
    calls := rfl
    sweeps := rfl
    discarded := rfl
    others := fun _ _ => rfl
    entry := ha.entry
    whole := fun h => h
    absent := fun _ h => h
    links := .inl rfl
    staging := fun _ _ hne =>
      setStaging_of_ne s (fun heq => hne (hid.trans (congrArg some heq.symm))) _
    grows := Nat.le_refl _
    staged := by rintro _ ⟨⟩
    otherLocks := fun _ _ => rfl
    locked := fun _ h => h
    held := fun hholding => ⟨ha.held hholding, .inl hholding⟩
    owned := fun hlocked => @holding_or s call hlocked
    knows := hk }

theorem touches_unlock {outcome : Outcome} (hstage : call.stage = .unlock outcome)
    (h : s.advance lockTimeoutMs call = some (s', next)) : Touches s s' call next := by
  have hk := ha.knows
  rw [Knows, hstage] at hk
  rw [Cache.advance, hstage] at h
  cases h
  exact {
    fingerprint := rfl
    calls := rfl
    sweeps := rfl
    discarded := rfl
    others := fun _ _ => rfl
    entry := ha.entry
    whole := fun h => h
    absent := fun _ h => h
    links := .inl rfl
    staging := fun _ _ _ => rfl
    grows := Nat.le_refl _
    staged := fun id hid => ⟨ha.staged id hid, .inl hid⟩
    otherLocks := fun f hf => Function.update_of_ne hf false s.locks
    locked := fun hnot => absurd (hk.1.symm.trans hnot) Bool.false_ne_true.symm
    held := by rintro ⟨⟩
    owned := fun hlocked => absurd
      (hlocked.symm.trans (Function.update_self call.fingerprint false s.locks))
      Bool.false_ne_true.symm
    knows := hk.2 }

/-- What a successful operation does. -/
theorem advance_touches (h : s.advance lockTimeoutMs call = some (s', next)) :
    Touches s s' call next := by
  have hk := ha.knows
  have hadvance := h
  rw [Knows] at hk
  rw [Cache.advance] at h
  cases hstage : call.stage with
  | openLock => exact touches_openLock ha hstage hadvance
  | makeStaging => exact touches_makeStaging ha hstage hadvance
  | rename => exact touches_rename ha hstage hadvance
  | link cache => exact touches_link ha hstage hadvance
  | removeStaging outcome => exact touches_removeStaging ha hstage hadvance
  | unlock outcome => exact touches_unlock ha hstage hadvance
  | makeDirectories =>
    rw [hstage] at h
    cases h
    exact touches_at ha trivial
  | lookComplete =>
    rw [hstage] at h
    dsimp only at h
    split_ifs at h with hcomplete
    · cases h
      exact touches_at ha ((hasComplete_iff ha).mp hcomplete)
    · cases h
      exact touches_next ha trivial
  | lookModules =>
    rw [hstage] at h hk
    dsimp only at h
    rw [if_pos (Cache.Whole.hasModules hk)] at h
    cases h
    exact touches_at ha hk
  | waitComplete =>
    rw [hstage] at h
    dsimp only at h
    split_ifs at h with hcomplete
    · cases h
      exact touches_at ha ((hasComplete_iff ha).mp hcomplete)
    · cases h
      exact touches_fail ha _
    · cases h
      exact touches_at ha trivial
  | waitModules =>
    rw [hstage] at h hk
    dsimp only at h
    rw [if_pos (Cache.Whole.hasModules hk)] at h
    cases h
    exact touches_at ha hk
  | delay =>
    rw [hstage] at h
    cases h
    exact touches_at ha trivial
  | lockedComplete =>
    rw [hstage] at h hk
    cases h
    refine touches_at ha ?_
    split_ifs with hcomplete
    · exact ⟨hk, (hasComplete_iff ha).mp hcomplete⟩
    · exact ⟨hk, ha.entry.resolve_left fun hwhole => hcomplete ((hasComplete_iff ha).mpr hwhole)⟩
  | lockedModules =>
    rw [hstage] at h hk
    cases h
    rw [if_pos (Cache.Whole.hasModules hk.2)]
    exact touches_at ha hk.2
  | install =>
    rw [hstage] at h hk
    obtain ⟨hholding, habsent, id, hid, modules, hstaged⟩ := hk
    rw [Option.mem_def] at hid
    rw [hid, Option.map_some] at h
    cases h
    rw [hstaged]
    exact touches_staging ha hid ⟨hholding, habsent, id, hid, .inr (setStaging_self ..)⟩
  | stagedModules =>
    rw [hstage] at h hk
    obtain ⟨hholding, habsent, id, hid, hstaged⟩ := hk
    rw [Option.mem_def] at hid
    rw [hid, Option.map_some] at h
    cases h
    rcases hstaged with hstaged | hstaged
    · rw [hstaged]
      exact touches_fail ha _
    · rw [hstaged]
      show Touches s s call (call.at .stageComplete)
      exact touches_at ha ⟨hholding, habsent, id, hid, hstaged⟩
  | stageComplete =>
    rw [hstage] at h hk
    obtain ⟨hholding, habsent, id, hid, hstaged⟩ := hk
    rw [Option.mem_def] at hid
    rw [hid, Option.map_some] at h
    cases h
    rw [hstaged]
    exact touches_staging ha hid ⟨hholding, habsent, id, hid, s.clock, setStaging_self ..⟩
  | removeEntry =>
    rw [hstage] at h hk
    cases h
    refine touches_entry ha (.inr rfl) (fun hwhole => ?_) (fun _ => rfl)
      ⟨hk.1, setEntry_self .., hk.2.2⟩
    obtain ⟨t, ht⟩ := hwhole
    rw [hk.2.1] at ht
    cases ht
  | mark =>
    rw [hstage] at h hk
    obtain ⟨t, ht⟩ := hk
    dsimp only at h
    rw [ht] at h
    cases h
    have hwhole : (s.setEntry call.fingerprint (some ⟨some none, some (.whole call.fingerprint)⟩)).Whole
        call.fingerprint := ⟨none, setEntry_self ..⟩
    refine touches_entry ha (.inl hwhole) (fun _ => hwhole) (fun hnone => ?_) hwhole
    rw [ht] at hnone
    cases hnone
  | markWrite =>
    rw [hstage] at h hk
    obtain ⟨t, ht⟩ := hk
    dsimp only at h
    rw [ht] at h
    cases h
    have hwhole : (s.setEntry call.fingerprint
        (some ⟨some (some s.clock), some (.whole call.fingerprint)⟩)).Whole call.fingerprint :=
      ⟨some s.clock, setEntry_self ..⟩
    refine touches_entry ha (.inl hwhole) (fun _ => hwhole) (fun hnone => ?_) hwhole
    rw [ht] at hnone
    cases hnone
  | closeLock outcome =>
    rw [hstage] at h hk
    cases h
    exact touches_at ha hk
  | settled outcome =>
    rw [hstage] at h
    cases h

/-- A failing operation has no effect. -/
theorem failed_touches : Touches s s call call.failed := by
  have hk := ha.knows
  rw [Knows] at hk
  unfold Call.failed
  split
  · exact touches_fail ha _
  · exact touches_at ha (by rintro ⟨⟩)
  · exact touches_at ha (by rintro ⟨⟩)
  · next outcome hstage =>
    rw [hstage] at hk
    exact touches_at ha hk.2
  · exact touches_fail ha _

end Effects

end DependencyCache
end AppBuilder.Agent.Validation
