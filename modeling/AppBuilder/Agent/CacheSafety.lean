import AppBuilder.Agent.CacheOperations

/-! The dependency cache under any interleaving of `prepare` and removals: what a workspace is linked
to stays whole, where nothing is removed that is in use. -/
namespace AppBuilder.Agent.Validation
namespace DependencyCache

section Steps

variable {s s' : Cache} {call next : Call} {lockTimeoutMs i : ℕ}

theorem get_set {α : Type} {l : List α} {i j : ℕ} {a b : α} (h : (l.set i a)[j]? = some b) :
    j = i ∧ b = a ∨ j ≠ i ∧ l[j]? = some b := by
  rw [List.getElem?_set] at h
  split_ifs at h with he hlt
  · exact .inl ⟨he.symm, (Option.some.inj h).symm⟩
  · exact .inr ⟨fun hj => he hj.symm, h⟩

theorem Lawful.able (hs : Lawful s) (hcall : call ∈ s.calls) (hcrashed : call.crashed = false)
    (hlive : call.live = true) : Able s call where
  entry := by
    rcases hs.entry call.fingerprint with hwhole | hnone | ⟨sweep, hsweep, hname, hstage⟩
    · exact .inl hwhole
    · exact .inr hnone
    · exact absurd (.inl ⟨call, hcall, hname.symm, hlive⟩) (hs.apart sweep hsweep hstage)
  held := hs.held call hcall
  staged := hs.staged call hcall
  knows := hs.knows call hcall hcrashed

theorem Touches.whole_of (ht : Touches s s' call next) {fingerprint : Fingerprint}
    (h : s.Whole fingerprint) : s'.Whole fingerprint := by
  by_cases heq : fingerprint = call.fingerprint
  · exact heq ▸ ht.whole (heq ▸ h)
  · obtain ⟨t, hentry⟩ := h
    exact ⟨t, (ht.others fingerprint heq).trans hentry⟩

/-- A step of one call leaves the facts of the others. -/
theorem Touches.rely (hs : Lawful s) (hi : s.calls[i]? = some call)
    (ht : Touches s s' call next) {j : ℕ} {other : Call} (hj : s.calls[j]? = some other)
    (hne : j ≠ i) : Rely s s' other where
  whole := ht.whole_of
  absent hholding hnone := by
    by_cases heq : other.fingerprint = call.fingerprint
    · rw [heq] at hnone ⊢
      refine ht.absent (Bool.not_eq_true _ ▸ fun hown => ?_) hnone
      exact hne (hs.one j i other call hj hi heq hholding hown)
    · rw [ht.others _ heq, hnone]
  staging id hid := ht.staging id (hs.staged other (List.mem_of_getElem? hj) id hid)
    fun hown => hne (hs.distinct j i other call id hj hi hid hown)
  linked h := by
    rcases h with h | h
    · rcases ht.links with hlinks | ⟨hlinks, -⟩
      · exact .inl (hlinks ▸ h)
      · exact .inl (hlinks ▸ List.mem_append_left _ h)
    · exact .inr (ht.discarded ▸ h)

theorem lawful_touch (hs : Lawful s) (hi : s.calls[i]? = some call) (hlive : call.live = true)
    (ht : Touches s s' call next) : Lawful (s'.setCall i next) := by
  have hcall := List.mem_of_getElem? hi
  have hget : ∀ {j : ℕ} {c : Call}, (s'.setCall i next).calls[j]? = some c →
      j = i ∧ c = next ∨ j ≠ i ∧ s.calls[j]? = some c := fun h => ht.calls ▸ get_set h
  have hmem : ∀ {c : Call}, c ∈ (s'.setCall i next).calls → c = next ∨ ∃ j, j ≠ i ∧
      s.calls[j]? = some c := by
    intro c hc
    obtain ⟨j, hj⟩ := List.getElem?_of_mem hc
    exact (hget hj).imp And.right fun h => ⟨j, h⟩
  have huse : ∀ f, (s'.setCall i next).InUse f → s.InUse f := by
    rintro f (⟨c, hc, rfl, hclive⟩ | ⟨link, hlink, rfl⟩)
    · rcases hmem hc with rfl | ⟨j, -, hj⟩
      · exact .inl ⟨call, hcall, ht.fingerprint.symm, hlive⟩
      · exact .inl ⟨c, List.mem_of_getElem? hj, rfl, hclive⟩
    · rcases ht.links with hlinks | ⟨hlinks, -⟩
      · exact .inr ⟨link, hlinks ▸ hlink, rfl⟩
      · rcases List.mem_append.mp (hlinks ▸ hlink) with hlink | hlink
        · exact .inr ⟨link, hlink, rfl⟩
        · cases List.mem_singleton.mp hlink
          exact .inl ⟨call, hcall, rfl, hlive⟩
  refine ⟨fun f => ?_, fun sweep hsweep hstage huses => ?_, fun link hlink => ?_, fun c hc hcr => ?_,
    fun c hc hholding => ?_, fun f hlocked => ?_, fun a b x y ha hb hxy hx hy => ?_,
    fun c hc id hid => ?_, fun a b x y id ha hb hx hy => ?_⟩
  · by_cases heq : f = call.fingerprint
    · subst heq
      exact ht.entry.imp id .inl
    · rcases hs.entry f with hwhole | hnone | hsweep
      · exact .inl (ht.whole_of hwhole)
      · exact .inr (.inl ((ht.others f heq).trans hnone))
      · exact .inr (.inr (ht.sweeps.symm ▸ hsweep))
  · exact hs.apart sweep (ht.sweeps ▸ hsweep) hstage (huse _ huses)
  · rcases ht.links with hlinks | ⟨hlinks, hwhole⟩
    · exact ht.whole_of (hs.links link (hlinks ▸ hlink))
    · rcases List.mem_append.mp (hlinks ▸ hlink) with hlink | hlink
      · exact ht.whole_of (hs.links link hlink)
      · cases List.mem_singleton.mp hlink
        exact hwhole
  · rcases hmem hc with rfl | ⟨j, hne, hj⟩
    · exact ht.knows
    · have hknows : Knows s' c :=
        (hs.knows c (List.mem_of_getElem? hj) hcr).rely (ht.rely hs hi hj hne)
      exact hknows
  · rcases hmem hc with rfl | ⟨j, hne, hj⟩
    · exact ht.fingerprint.symm ▸ (ht.held hholding).1
    · have hlocked := hs.held c (List.mem_of_getElem? hj) hholding
      by_cases heq : c.fingerprint = call.fingerprint
      · rw [heq] at hlocked ⊢
        refine ht.locked (Bool.not_eq_true _ ▸ fun hown => ?_) hlocked
        exact hne (hs.one j i c call hj hi heq hholding hown)
      · exact (ht.otherLocks _ heq).trans hlocked
  · have hnext : next ∈ (s'.setCall i next).calls :=
      List.mem_set (ht.calls.symm ▸ (List.getElem?_eq_some_iff.mp hi).1) next
    have hother : ∀ c ∈ s.calls, c.fingerprint = f → c.holding = true → c ≠ call →
        ∃ c ∈ (s'.setCall i next).calls, c.fingerprint = f ∧ c.holding = true := by
      intro c hc hcf hholding hne
      obtain ⟨j, hj⟩ := List.getElem?_of_mem hc
      have hji : i ≠ j := fun hij => hne (Option.some.inj (hj.symm.trans (hij ▸ hi)))
      refine ⟨c, List.mem_of_getElem? (i := j) ?_, hcf, hholding⟩
      show (s'.calls.set i next)[j]? = some c
      rw [List.getElem?_set_ne hji, ht.calls, hj]
    by_cases heq : f = call.fingerprint
    · subst heq
      rcases ht.owned hlocked with hholding | ⟨hnot, hlocked⟩
      · exact ⟨next, hnext, ht.fingerprint, hholding⟩
      · obtain ⟨c, hc, hcf, hholding⟩ := hs.owned _ hlocked
        refine hother c hc hcf hholding ?_
        rintro rfl
        exact absurd (hholding.symm.trans hnot) Bool.false_ne_true.symm
    · obtain ⟨c, hc, hcf, hholding⟩ := hs.owned f (ht.otherLocks f heq ▸ hlocked)
      refine hother c hc hcf hholding ?_
      rintro rfl
      exact heq hcf.symm
  · have hother : ∀ j c, s.calls[j]? = some c → j ≠ i → c.fingerprint = call.fingerprint →
        c.holding = true → next.holding = true → False := by
      intro j c hj hne heq hc hn
      rcases (ht.held hn).2 with hown | hfree
      · exact hne (hs.one j i c call hj hi heq hc hown)
      · have hlocked := hs.held c (List.mem_of_getElem? hj) hc
        rw [heq, hfree] at hlocked
        cases hlocked
    rcases hget ha with ⟨hai, rfl⟩ | ⟨hai, hold⟩
    · rcases hget hb with ⟨hbi, -⟩ | ⟨hbi, hb⟩
      · exact hai.trans hbi.symm
      · exact (hother b y hb hbi (hxy.symm.trans ht.fingerprint) hy hx).elim
    · rcases hget hb with ⟨hbi, rfl⟩ | ⟨-, hb⟩
      · exact (hother a x hold hai (hxy.trans ht.fingerprint) hx hy).elim
      · exact hs.one a b x y hold hb hxy hx hy
  · rcases hmem hc with rfl | ⟨j, -, hj⟩
    · exact (ht.staged id hid).1
    · exact Nat.lt_of_lt_of_le (hs.staged c (List.mem_of_getElem? hj) id hid) ht.grows
  · have hother : ∀ j c, s.calls[j]? = some c → j ≠ i → c.stagingPath = some id →
        next.stagingPath = some id → False := by
      intro j c hj hne hc hn
      rcases (ht.staged id hn).2 with hown | hfresh
      · exact hne (hs.distinct j i c call id hj hi hc hown)
      · exact Nat.not_lt.mpr hfresh (hs.staged c (List.mem_of_getElem? hj) id hc)
    rcases hget ha with ⟨hai, rfl⟩ | ⟨hai, hold⟩
    · rcases hget hb with ⟨hbi, -⟩ | ⟨hbi, hb⟩
      · exact hai.trans hbi.symm
      · exact (hother b y hb hbi hy hx).elim
    · rcases hget hb with ⟨hbi, rfl⟩ | ⟨-, hb⟩
      · exact (hother a x hold hai hx hy).elim
      · exact hs.distinct a b x y id hold hb hx hy

theorem running_spec (h : s.running i = some call) :
    s.calls[i]? = some call ∧ call.live = true := Option.filter_eq_some_iff.mp h

theorem Call.live_crashed (h : call.live = true) : call.crashed = false := by
  rw [Call.live, Bool.and_eq_true, Bool.not_eq_true'] at h
  exact h.1

theorem Lawful.running (hs : Lawful s) (h : s.running i = some call) : Able s call :=
  have hspec := running_spec h
  hs.able (List.mem_of_getElem? hspec.1) (Call.live_crashed hspec.2) hspec.2

theorem setCall_self (hi : s.calls[i]? = some call) : s.setCall i call = s := by
  obtain ⟨hlt, rfl⟩ := List.getElem?_eq_some_iff.mp hi
  rw [Cache.setCall, List.set_getElem_self]

/-- A step of a call that does not go on to another operation. -/
theorem lawful_stay (hs : Lawful s) (h : s.running i = some call) (ht : Touches s s' call call) :
    Lawful s' := by
  obtain ⟨hi, hlive⟩ := running_spec h
  have hstay : s'.setCall i call = s' := setCall_self (ht.calls ▸ hi)
  exact hstay ▸ lawful_touch hs hi hlive ht

/-- The removals of unused entries. -/
theorem lawful_sweeps (hs : Lawful s) {sweeps : List Sweep}
    (hkeep : ∀ sweep ∈ s.sweeps, sweep.stage = .remove → s.entries sweep.name = none ∨
      ∃ other ∈ sweeps, other.name = sweep.name ∧ other.stage = .remove)
    (hnew : ∀ sweep ∈ sweeps, sweep.stage = .remove → ¬s.InUse sweep.name) :
    Lawful { s with sweeps := sweeps } where
  entry f := by
    rcases hs.entry f with hwhole | hnone | ⟨sweep, hsweep, rfl, hstage⟩
    · exact .inl hwhole
    · exact .inr (.inl hnone)
    · exact .inr (hkeep sweep hsweep hstage)
  apart := hnew
  links := hs.links
  knows := hs.knows
  held := hs.held
  owned := hs.owned
  one := hs.one
  staged := hs.staged
  distinct := hs.distinct

/-- Something is removed from an entry that is not in use. -/
theorem lawful_unused (hs : Lawful s) {name : Fingerprint} (hunused : ¬s.InUse name)
    {folder : Option Folder}
    (hfolder : folder = none ∨ ∃ sweep ∈ s.sweeps, sweep.name = name ∧ sweep.stage = .remove) :
    Lawful (s.setEntry name folder) := by
  have hwhole : ∀ f, f ≠ name → s.Whole f → (s.setEntry name folder).Whole f := by
    rintro f hf ⟨t, ht⟩
    exact ⟨t, (setEntry_of_ne s hf folder).trans ht⟩
  refine ⟨fun f => ?_, hs.apart, fun link hlink => ?_, fun call hcall hcrashed => ?_, hs.held, hs.owned,
    hs.one, hs.staged, hs.distinct⟩
  · by_cases heq : f = name
    · subst heq
      rcases hfolder with rfl | hsweep
      · exact .inr (.inl (setEntry_self ..))
      · exact .inr (.inr hsweep)
    · rcases hs.entry f with h | hnone | hsweep
      · exact .inl (hwhole f heq h)
      · exact .inr (.inl ((setEntry_of_ne s heq folder).trans hnone))
      · exact .inr (.inr hsweep)
  · exact hwhole _ (fun heq => hunused (.inr ⟨link, hlink, heq⟩)) (hs.links link hlink)
  · have hk := hs.knows call hcall hcrashed
    cases hlive : call.live with
    | true =>
      have hne : call.fingerprint ≠ name := fun heq => hunused (.inl ⟨call, hcall, heq, hlive⟩)
      refine hk.rely ⟨hwhole _ hne, fun _ h => ?_, fun _ _ => rfl, fun h => h⟩
      exact (setEntry_of_ne s hne folder).trans h
    | false =>
      rw [Call.live, hcrashed, Bool.not_false, Bool.true_and] at hlive
      rw [Knows] at hk ⊢
      split at hlive
      · next hstage =>
        rw [hstage] at hk ⊢
        exact hk
      · cases hlive

/-- A removal goes on. -/
theorem lawful_setSweep (hs : Lawful s) {sweep after : Sweep} {j : ℕ}
    (hj : s.sweeping j = some sweep)
    (hkeep : sweep.stage = .remove → s.entries sweep.name = none ∨
      after.name = sweep.name ∧ after.stage = .remove)
    (hnew : after.stage = .remove → ¬s.InUse after.name) : Lawful (s.setSweep j after) := by
  have hj := (Option.filter_eq_some_iff.mp hj).1
  refine lawful_sweeps hs (fun other hother hstage => ?_) fun other hother hstage => ?_
  · obtain ⟨k, hk⟩ := List.getElem?_of_mem hother
    by_cases hkj : k = j
    · subst hkj
      obtain rfl : other = sweep := Option.some.inj (hk.symm.trans hj)
      refine (hkeep hstage).imp id fun h => ⟨after, ?_, h⟩
      exact List.mem_set (List.getElem?_eq_some_iff.mp hj).1 after
    · refine .inr ⟨other, List.mem_of_getElem? (i := k) ?_, rfl, hstage⟩
      rw [List.getElem?_set_ne (Ne.symm hkj), hk]
  · rcases List.mem_or_eq_of_mem_set hother with hother | rfl
    · exact hs.apart other hother hstage
    · exact hnew hstage

theorem lawful_advanceSweep (hs : Lawful s) {j : ℕ} {succeeds : Bool} {sweep after : Sweep}
    (hok : Apart s (.advanceSweep j succeeds)) (hj : s.sweeping j = some sweep)
    (h : s.advanceSweep sweep succeeds = some (s', after)) : Lawful (s'.setSweep j after) := by
  have hok := hok sweep hj
  rw [Cache.advanceSweep] at h
  cases hstage : sweep.stage with
  | checkLock =>
    rw [hstage] at h
    cases h
    refine lawful_setSweep hs hj (fun hremove => ?_) fun hremove => ?_
    · rw [hstage] at hremove
      cases hremove
    · dsimp only at hremove
      split_ifs at hremove
  | readEntry =>
    rw [hstage] at h
    cases h
    refine lawful_setSweep hs hj (fun hremove => ?_) fun hremove => ?_
    · rw [hstage] at hremove
      cases hremove
    · dsimp only at hremove
      split_ifs at hremove
  | recheckLock =>
    rw [hstage] at h
    cases h
    refine lawful_setSweep hs hj (fun hremove => ?_) fun _ => hok.1 hstage
    rw [hstage] at hremove
    cases hremove
  | remove =>
    rw [hstage] at h
    cases h
    rw [hok.2 hstage, if_pos rfl]
    have hmem := List.mem_of_getElem? (Option.filter_eq_some_iff.mp hj).1
    refine lawful_setSweep (lawful_unused hs (hs.apart sweep hmem hstage) (.inl rfl)) hj
      (fun _ => .inl (setEntry_self ..)) ?_
    rintro ⟨⟩
  | settled =>
    rw [hstage] at h
    cases h

theorem get_append {α : Type} {l : List α} {j : ℕ} {a b : α} (h : (l ++ [a])[j]? = some b) :
    j = l.length ∧ b = a ∨ l[j]? = some b := by
  rcases Nat.lt_or_ge j l.length with hlt | hge
  · exact .inr (List.getElem?_append_left hlt ▸ h)
  · rw [List.getElem?_append_right hge, List.getElem?_singleton] at h
    split_ifs at h with hzero
    exact .inl ⟨by omega, (Option.some.inj h).symm⟩

theorem lawful_prepare (hs : Lawful s) {fingerprint : Fingerprint} {workspacePath : Workspace}
    (hok : Apart s (.prepare fingerprint workspacePath))
    (h : s.step lockTimeoutMs (.prepare fingerprint workspacePath) = some s') : Lawful s' := by
  cases h
  refine ⟨hs.entry, fun sweep hsweep hstage huses => ?_, hs.links, fun c hc hcr => ?_,
    fun c hc hholding => ?_, fun f hlocked => ?_, fun a b x y ha hb hxy hx hy => ?_,
    fun c hc id hid => ?_, fun a b x y id ha hb hx hy => ?_⟩
  · rcases huses with ⟨c, hc, hname, hlive⟩ | hlink
    · rcases List.mem_append.mp hc with hc | hc
      · exact hs.apart sweep hsweep hstage (.inl ⟨c, hc, hname, hlive⟩)
      · cases List.mem_singleton.mp hc
        exact hok sweep hsweep hname.symm hstage
    · exact hs.apart sweep hsweep hstage (.inr hlink)
  · rcases List.mem_append.mp hc with hc | hc
    · have hknows := hs.knows c hc hcr
      exact hknows
    · cases List.mem_singleton.mp hc
      trivial
  · rcases List.mem_append.mp hc with hc | hc
    · exact hs.held c hc hholding
    · cases List.mem_singleton.mp hc
      cases hholding
  · obtain ⟨c, hc, hholds⟩ := hs.owned f hlocked
    exact ⟨c, List.mem_append_left _ hc, hholds⟩
  · rcases get_append ha with ⟨-, rfl⟩ | ha
    · cases hx
    · rcases get_append hb with ⟨-, rfl⟩ | hb
      · cases hy
      · exact hs.one a b x y ha hb hxy hx hy
  · rcases List.mem_append.mp hc with hc | hc
    · exact hs.staged c hc id hid
    · cases List.mem_singleton.mp hc
      cases hid
  · rcases get_append ha with ⟨-, rfl⟩ | ha
    · cases hx
    · rcases get_append hb with ⟨-, rfl⟩ | hb
      · cases hy
      · exact hs.distinct a b x y id ha hb hx hy

/-- A removed workspace takes its link along. -/
theorem lawful_discard (hs : Lawful s) {workspacePath : Workspace}
    (h : s.step lockTimeoutMs (.discard workspacePath) = some s') : Lawful s' := by
  cases h
  refine ⟨hs.entry, fun sweep hsweep hstage huses => ?_, fun link hlink => ?_, fun c hc hcr => ?_,
    hs.held, hs.owned, hs.one, hs.staged, hs.distinct⟩
  · refine hs.apart sweep hsweep hstage (huses.imp id ?_)
    rintro ⟨link, hlink, hname⟩
    exact ⟨link, List.mem_of_mem_filter hlink, hname⟩
  · exact hs.links link (List.mem_of_mem_filter hlink)
  · refine (hs.knows c hc hcr).rely ⟨fun h => h, fun _ h => h, fun _ _ => rfl, ?_⟩
    rintro (hlink | hgone)
    · by_cases heq : c.workspacePath = workspacePath
      · exact .inr (heq ▸ List.mem_cons_self)
      · exact .inl (List.mem_filter.mpr ⟨hlink, bne_iff_ne.mpr heq⟩)
    · exact .inr (List.mem_cons_of_mem _ hgone)

theorem Call.at_self {stage : Stage} (h : call.stage = stage) : call.at stage = call := by
  rw [← h]
  rfl

/-- The next operation of a call, as it succeeds or not. -/
theorem lawful_advance (hs : Lawful s) {answer : Answer}
    (h : s.step lockTimeoutMs (.advance i answer) = some s') : Lawful s' := by
  rw [Cache.step] at h
  obtain ⟨call, hrunning, h⟩ := Option.bind_eq_some_iff.mp h
  have ha := hs.running hrunning
  obtain ⟨hi, hlive⟩ := running_spec hrunning
  cases answer with
  | done =>
    obtain ⟨⟨mid, next⟩, hadvance, rfl⟩ := Option.map_eq_some_iff.mp h
    exact lawful_touch hs hi hlive (advance_touches ha hadvance)
  | fails =>
    dsimp only at h
    split_ifs at h
    cases h
    exact lawful_touch hs hi hlive (failed_touches ha)
  | noModules =>
    dsimp only at h
    split_ifs at h with hinstall
    cases h
    have hk := ha.knows
    rw [Knows, hinstall.1] at hk
    obtain ⟨hholding, habsent, id, hid, modules, hstaged⟩ := hk
    have hnone := hinstall.2
    rw [Option.mem_def] at hid
    rw [hid, Option.bind_some, hstaged, Option.any_some, Option.isNone_iff_eq_none] at hnone
    obtain rfl : modules = none := hnone
    exact lawful_touch hs hi hlive (touches_at ha ⟨hholding, habsent, id, hid, .inl hstaged⟩)

/-- An installation goes on. -/
theorem lawful_write (hs : Lawful s) (h : s.step lockTimeoutMs (.write i) = some s') :
    Lawful s' := by
  rw [Cache.step] at h
  obtain ⟨call, hrunning, h⟩ := Option.bind_eq_some_iff.mp h
  split_ifs at h with hstage
  obtain ⟨id, hid, rfl⟩ := Option.map_eq_some_iff.mp h
  have ha := hs.running hrunning
  have hk := ha.knows
  rw [Knows, hstage] at hk
  obtain ⟨hholding, habsent, id', hid', modules, hstaged⟩ := hk
  obtain rfl : id' = id := Option.some.inj (hid'.symm.trans hid)
  refine lawful_stay hs hrunning ?_
  have ht := @touches_staging s call ha id' ((s.staging id').map fun folder =>
    { folder with nodeModules := some .part }) .install hid
    ⟨hholding, habsent, id', hid, some .part, by rw [setStaging_self, hstaged]; rfl⟩
  rwa [Call.at_self hstage] at ht

/-- The removal before the rename finds nothing to remove. -/
theorem lawful_wear (hs : Lawful s) {wear : Wear}
    (h : s.step lockTimeoutMs (.wear i wear) = some s') : Lawful s' := by
  rw [Cache.step] at h
  obtain ⟨call, hrunning, h⟩ := Option.bind_eq_some_iff.mp h
  split_ifs at h with hstage
  cases h
  have ha := hs.running hrunning
  have hk := ha.knows
  rw [Knows, hstage] at hk
  rw [hk.2.1, Option.map_none]
  refine lawful_stay hs hrunning ?_
  have ht := @touches_entry s call ha none .removeEntry (.inr rfl)
    (by rintro ⟨t, ht⟩; rw [hk.2.1] at ht; cases ht) (fun _ => rfl)
    ⟨hk.1, setEntry_self .., hk.2.2⟩
  rwa [Call.at_self hstage] at ht

theorem lawful_crash (hs : Lawful s) (h : s.step lockTimeoutMs (.crash i) = some s') :
    Lawful s' := by
  obtain ⟨call, hrunning, rfl⟩ := Option.map_eq_some_iff.mp h
  have ha := hs.running hrunning
  obtain ⟨hi, hlive⟩ := running_spec hrunning
  exact lawful_touch hs hi hlive (@touches_next s call ha call.stage call.startedAt true ha.knows)

theorem lawful_sweep (hs : Lawful s) {name : Fingerprint}
    (h : s.step lockTimeoutMs (.sweep name) = some s') : Lawful s' := by
  obtain ⟨lastUsedAt, -, rfl⟩ := Option.map_eq_some_iff.mp h
  refine lawful_sweeps hs (fun sweep hsweep hstage => ?_) fun sweep hsweep hstage => ?_
  · exact .inr ⟨sweep, List.mem_append_left _ hsweep, rfl, hstage⟩
  · rcases List.mem_append.mp hsweep with hsweep | hsweep
    · exact hs.apart sweep hsweep hstage
    · cases List.mem_singleton.mp hsweep
      cases hstage

theorem lawful_wearSweep (hs : Lawful s) {j : ℕ} {wear : Wear}
    (h : s.step lockTimeoutMs (.wearSweep j wear) = some s') : Lawful s' := by
  rw [Cache.step] at h
  obtain ⟨sweep, hj, h⟩ := Option.bind_eq_some_iff.mp h
  split_ifs at h with hstage
  cases h
  have hmem := List.mem_of_getElem? (Option.filter_eq_some_iff.mp hj).1
  exact lawful_unused hs (hs.apart sweep hmem hstage) (.inr ⟨sweep, hmem, rfl, hstage⟩)

theorem lawful_crashSweep (hs : Lawful s) {j : ℕ}
    (h : s.step lockTimeoutMs (.crashSweep j) = some s') : Lawful s' := by
  obtain ⟨sweep, hj, rfl⟩ := Option.map_eq_some_iff.mp h
  have hmem := List.mem_of_getElem? (Option.filter_eq_some_iff.mp hj).1
  exact lawful_setSweep hs hj (fun hstage => .inr ⟨rfl, hstage⟩) (hs.apart sweep hmem)

/-- Each step keeps the invariant, where removals stay apart from what is in use. -/
theorem lawful_step (hs : Lawful s) {l : Label} (hok : Apart s l)
    (h : s.step lockTimeoutMs l = some s') : Lawful s' := by
  cases l with
  | prepare fingerprint workspacePath => exact lawful_prepare hs hok h
  | advance i answer => exact lawful_advance hs h
  | write i => exact lawful_write hs h
  | wear i wear => exact lawful_wear hs h
  | crash i => exact lawful_crash hs h
  | sweep name => exact lawful_sweep hs h
  | advanceSweep j succeeds =>
    rw [Cache.step] at h
    obtain ⟨sweep, hj, h⟩ := Option.bind_eq_some_iff.mp h
    obtain ⟨⟨mid, after⟩, hadvance, rfl⟩ := Option.map_eq_some_iff.mp h
    exact lawful_advanceSweep hs hok hj hadvance
  | wearSweep j wear => exact lawful_wearSweep hs h
  | crashSweep j => exact lawful_crashSweep hs h
  | discard workspacePath => exact lawful_discard hs h
  | elapse ms =>
    cases h
    exact ⟨hs.entry, hs.apart, hs.links, hs.knows, hs.held, hs.owned, hs.one, hs.staged,
      hs.distinct⟩

theorem lawful_empty : Lawful .empty := by
  refine ⟨fun _ => .inr (.inl rfl), ?_, ?_, ?_, ?_, ?_, ?_, ?_, ?_⟩
  · rintro _ ⟨⟩
  · rintro _ ⟨⟩
  · rintro _ ⟨⟩
  · rintro _ ⟨⟩
  · rintro _ ⟨⟩
  · rintro _ _ _ _ ⟨⟩
  · rintro _ ⟨⟩
  · rintro _ _ _ _ _ ⟨⟩

theorem lawful_reached (h : s.Reached lockTimeoutMs Apart) : Lawful s := by
  induction h with
  | start => exact lawful_empty
  | step _ hl hstep ih => exact lawful_step ih hl hstep

end Steps

section Runs

variable {s s' : Cache} {lockTimeoutMs : ℕ}

instance (s : Cache) (fingerprint : Fingerprint) : Decidable (s.InUse fingerprint) :=
  inferInstanceAs (Decidable (_ ∨ _))

instance (s : Cache) : (l : Label) → Decidable (Apart s l)
  | .prepare fingerprint _ => inferInstanceAs (Decidable
    (∀ sweep ∈ s.sweeps, sweep.name = fingerprint → sweep.stage ≠ .remove))
  | .advanceSweep j succeeds => inferInstanceAs (Decidable (∀ sweep ∈ s.sweeping j,
    (sweep.stage = .recheckLock → ¬s.InUse sweep.name) ∧
      (sweep.stage = .remove → succeeds = true)))
  | .advance _ _ | .write _ | .wear _ _ | .crash _ | .sweep _ | .wearSweep _ _ | .crashSweep _
  | .discard _ | .elapse _ => isTrue trivial

/-- A run whose removals stay apart from what is in use. -/
def Cache.follow (lockTimeoutMs : ℕ) (s : Cache) : List Label → Option Cache
  | [] => some s
  | l :: labels =>
    if Apart s l then (s.step lockTimeoutMs l).bind (Cache.follow lockTimeoutMs · labels) else none

theorem follow_reached {labels : List Label} (hs : s.Reached lockTimeoutMs Apart)
    (h : s.follow lockTimeoutMs labels = some s') : s'.Reached lockTimeoutMs Apart := by
  induction labels generalizing s with
  | nil => exact Option.some.inj h ▸ hs
  | cons l labels ih =>
    rw [Cache.follow] at h
    split_ifs at h with hl
    obtain ⟨mid, hstep, h⟩ := Option.bind_eq_some_iff.mp h
    exact ih (hs.step hl hstep) h

/-- In any interleaving of `prepare` and removals, with crashes and failing operations, where removals
stay apart from what is in use: every link leads to a whole installation of its fingerprint, a call
that has returned has linked its workspace, and one call at most holds the lock of an entry. -/
theorem prepared_whole (h : s.Reached lockTimeoutMs Apart) :
    (∀ link ∈ s.links, s.Whole link.2) ∧
      (∀ call ∈ s.calls, ∀ cache, call.crashed = false → call.stage = .settled (.ok cache) →
        (call.workspacePath, call.fingerprint) ∈ s.links ∧ s.Whole call.fingerprint ∨
          call.workspacePath ∈ s.discarded) ∧
      ∀ (i j : ℕ) (a b : Call), s.calls[i]? = some a → s.calls[j]? = some b →
        a.fingerprint = b.fingerprint → a.holding = true → b.holding = true → i = j := by
  have hs := lawful_reached h
  refine ⟨hs.links, fun call hcall cache hcrashed hstage => ?_, hs.one⟩
  have hk := hs.knows call hcall hcrashed
  rw [Knows, hstage] at hk
  exact (hk rfl).imp (fun hlink => ⟨hlink, hs.links _ hlink⟩) id

end Runs

end DependencyCache
end AppBuilder.Agent.Validation
