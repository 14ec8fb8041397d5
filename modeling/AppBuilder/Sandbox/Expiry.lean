import AppBuilder.Sandbox.Passes
import Mathlib.Algebra.Order.Group.Nat

/-! Leases that have expired, over passes of the reconciler without other actors. -/
namespace AppBuilder.Sandbox
open Agent Async

variable {options : SandboxServiceOptions} {directory : Directory} {key : SandboxRef → String}
  {w w' : SandboxWorld key} {lease : SandboxLease}

section Pass

/-- The turns of several leases, one after another. -/
def turns (options : SandboxServiceOptions) (directory : Directory) (w : SandboxWorld key)
    (leases : List SandboxLease) : SandboxWorld key := leases.foldl (turn options directory) w

def orphanTurn (options : SandboxServiceOptions) (directory : Directory) (w : SandboxWorld key)
    (kind : String) : SandboxWorld key := (settled directory (reconcileOrphans options kind) w).2

def SandboxWorld.later (w : SandboxWorld key) (elapsed : ℕ) : SandboxWorld key :=
  { w with clock := w.clock + elapsed }

/-- A pass of the reconciler, `elapsed` milliseconds after the last one. -/
def pass (options : SandboxServiceOptions) (directory : Directory) (w : SandboxWorld key)
    (elapsed : ℕ) : SandboxWorld key := (settled directory (reconcile options) (w.later elapsed)).2

def passes (options : SandboxServiceOptions) (directory : Directory) (w : SandboxWorld key)
    (elapsed : List ℕ) : SandboxWorld key := elapsed.foldl (pass options directory) w

theorem settled_foldEach {α β : Type} (body : α → SandboxPromise β) (xs : List α)
    (w : SandboxWorld key) :
    settled directory (Prog.foldEach (fun _ x => do
      let _ ← (body x).attempt
      return ()) () xs) w =
      (.ok (), xs.foldl (fun w x => (settled directory (body x) w).2) w) := by
  induction xs generalizing w with
  | nil => rfl
  | cons x xs ih =>
    have hfirst : settled directory ((body x).attempt.bind fun _ => .pure ()) w =
        (.ok (), (settled directory (body x) w).2) :=
      settled_bind (Prog.evaluate_attempt ..)
    exact (settled_bind hfirst).trans (ih _)

theorem pass_eq (w : SandboxWorld key) (elapsed : ℕ) : pass options directory w elapsed =
    options.kinds.foldl (orphanTurn options directory)
      (turns options directory (w.later elapsed) (w.later elapsed).scanLeases) := by
  have hscan : settled directory (perform .scanLeases) (w.later elapsed) =
      (.ok (w.later elapsed).scanLeases, w.later elapsed) := settled_perform .scanLeases _
  have hturns := (@settled_foldEach directory) (reconcileLease options)
    (w.later elapsed).scanLeases (w.later elapsed)
  have horphans := (@settled_foldEach directory) (reconcileOrphans options)
    options.kinds (turns options directory (w.later elapsed) (w.later elapsed).scanLeases)
  rw [pass, reconcile]
  refine (congrArg Prod.snd (settled_bind hscan)).trans ?_
  refine (congrArg Prod.snd (settled_bind hturns)).trans ?_
  exact congrArg Prod.snd horphans

theorem mem_scanLeases (hl : lease ∈ w.scanLeases) :
    lease ∈ w.leases ∧ lease.state ≠ .terminated := by
  have h := List.mem_filter.mp (List.mem_of_mem_take hl)
  simpa using h

theorem scanLeases_ids (hw : w.WellFormed) :
    (w.scanLeases.map fun lease => lease._id).Nodup :=
  (((List.take_sublist ..).trans List.filter_sublist).map _).nodup hw.ids

theorem SandboxWorld.WellFormed.later (hw : w.WellFormed) (elapsed : ℕ) :
    (w.later elapsed).WellFormed := ⟨hw.fresh, hw.ids, hw.apart, hw.binds⟩

/-- The leases of which the list holds a version. -/
def AmongIds (leases : List SandboxLease) (leaseId : ObjectId) : Prop :=
  ∃ lease ∈ leases, lease._id = leaseId

theorem passed_turns {leases : List SandboxLease} (hw : w.WellFormed)
    (hstored : ∀ lease ∈ leases, w.lease? lease._id = some lease)
    (hids : (leases.map fun lease => lease._id).Nodup) :
    SandboxWorld.Passed (AmongIds leases) w (turns options directory w leases) := by
  induction leases generalizing w with
  | nil => exact .refl _ hw
  | cons lease rest ih =>
    obtain ⟨hnew, hrest⟩ := List.nodup_cons.mp hids
    have hfirst := (@passed_turn options directory) hw
      (hstored lease List.mem_cons_self)
    have hlater : ∀ other ∈ rest,
        (turn options directory w lease).lease? other._id = some other := by
      intro other ho
      refine (hfirst.frame other._id fun he => ?_).trans (hstored other (.tail _ ho))
      exact hnew (List.mem_map.mpr ⟨other, ho, he⟩)
    refine (hfirst.mono ?_).trans ((ih hfirst.wellFormed hlater hrest).mono ?_)
    · rintro leaseId rfl
      exact ⟨lease, List.mem_cons_self, rfl⟩
    · rintro leaseId ⟨other, ho, hid⟩
      exact ⟨other, .tail _ ho, hid⟩

/-- A lease comes to its turn as it was, and leaves the loop as its turn left it. -/
theorem turns_at {leases : List SandboxLease} (hw : w.WellFormed)
    (hstored : ∀ lease ∈ leases, w.lease? lease._id = some lease)
    (hids : (leases.map fun lease => lease._id).Nodup) (hl : lease ∈ leases) :
    ∃ w₁, SandboxWorld.Passed (fun _ => True) w w₁ ∧ w₁.lease? lease._id = some lease ∧
      SandboxWorld.Passed (fun leaseId => leaseId ≠ lease._id) (turn options directory w₁ lease)
        (turns options directory w leases) := by
  obtain ⟨before, after, rfl⟩ := List.append_of_mem hl
  rw [List.map_append, List.map_cons, List.nodup_append] at hids
  obtain ⟨hbefore, hafter, hapart⟩ := hids
  obtain ⟨hnew, hafter⟩ := List.nodup_cons.mp hafter
  have hfirst := (@passed_turns options directory) hw
    (fun other ho => hstored other (List.mem_append_left _ ho)) hbefore
  have hkept : ∀ other ∈ lease :: after, (turns options directory w before).lease? other._id =
      some other := by
    intro other ho
    refine (hfirst.frame other._id ?_).trans (hstored other (List.mem_append_right _ ho))
    rintro ⟨earlier, he, hid⟩
    exact hapart _ (List.mem_map_of_mem he) _ (List.mem_map_of_mem ho) hid
  have hmiddle := (@passed_turn options directory) hfirst.wellFormed
    (hkept lease List.mem_cons_self)
  have hlast := (@passed_turns options directory) hmiddle.wellFormed
    (fun other (ho : other ∈ after) => (hmiddle.frame other._id fun he =>
      hnew (List.mem_map.mpr ⟨other, ho, he⟩)).trans (hkept other (.tail _ ho))) hafter
  have hturns : turns options directory w (before ++ lease :: after) =
      turns options directory (turn options directory (turns options directory w before) lease)
        after := List.foldl_append ..
  refine ⟨turns options directory w before, hfirst.mono fun _ _ => trivial,
    hkept lease List.mem_cons_self, ?_⟩
  rw [hturns]
  refine hlast.mono ?_
  rintro leaseId ⟨other, ho, rfl⟩ he
  exact hnew (List.mem_map.mpr ⟨other, ho, he⟩)

/-- The scan for orphans writes no lease. -/
theorem passed_orphans (kinds : List String) (hw : w.WellFormed) :
    SandboxWorld.Passed (fun _ => False) w (kinds.foldl (orphanTurn options directory) w) := by
  induction kinds generalizing w with
  | nil => exact .refl _ hw
  | cons kind kinds ih =>
    have hfirst : SandboxWorld.Passed (fun _ => False) w (orphanTurn options directory w kind) :=
      passed_of_conducted_nil hw (reconcileOrphans_conducted kind) (reconcileOrphans_confined kind)
    exact hfirst.trans (ih hfirst.wellFormed)

/-- What a pass may change: the leases that it scans. -/
theorem passed_pass (hw : w.WellFormed) (elapsed : ℕ) :
    SandboxWorld.Passed (AmongIds (w.later elapsed).scanLeases) (w.later elapsed)
      (pass options directory w elapsed) := by
  have hw' := hw.later elapsed
  have hturns := (@passed_turns options directory) hw'
    (fun lease hl => hw'.lease?_of_mem (mem_scanLeases hl).1) (scanLeases_ids hw')
  rw [pass_eq]
  exact hturns.trans ((passed_orphans options.kinds hturns.wellFormed).mono fun _ h => h.elim)

/-- The turn of a scanned lease within its pass. -/
theorem pass_at (hw : w.WellFormed) {elapsed : ℕ} (hl : lease ∈ (w.later elapsed).scanLeases) :
    ∃ w₁, SandboxWorld.Passed (fun _ => True) (w.later elapsed) w₁ ∧
      w₁.lease? lease._id = some lease ∧
      SandboxWorld.Passed (fun leaseId => leaseId ≠ lease._id) (turn options directory w₁ lease)
        (pass options directory w elapsed) := by
  have hw' := hw.later elapsed
  obtain ⟨w₁, hbefore, hstored, hafter⟩ := (@turns_at options directory)
    hw' (fun lease hl => hw'.lease?_of_mem (mem_scanLeases hl).1) (scanLeases_ids hw') hl
  refine ⟨w₁, hbefore, hstored, ?_⟩
  rw [pass_eq]
  exact hafter.trans ((passed_orphans options.kinds hafter.wellFormed).mono fun _ h => h.elim)

end Pass

section Progress

/-- Every lease is at a provider that is configured. -/
def SandboxWorld.Served (w : SandboxWorld key) (options : SandboxServiceOptions) : Prop :=
  ∀ lease ∈ w.leases, options.kinds.contains lease.provider = true

/-- A lease that has expired is not terminated yet. -/
def SandboxWorld.Overdue (w : SandboxWorld key) (lease : SandboxLease) : Prop :=
  lease.expiresAt ≤ w.clock ∧ lease.state ≠ .terminated

/-- As long as a lease is overdue, the leases that a pass scans are not all stuck: one of them
gives way, and its branch is free. -/
def SandboxWorld.Unblocked (w : SandboxWorld key) (options : SandboxServiceOptions) : Prop :=
  (∃ lease ∈ w.leases, w.Overdue lease) →
    ∃ lease ∈ w.scanLeases, w.GivesWay options lease ∧ w.BranchFree lease

/-- The passes all find the leases unblocked. -/
def Advancing (options : SandboxServiceOptions) (directory : Directory) :
    SandboxWorld key → List ℕ → Prop
  | _, [] => True
  | w, elapsed :: rest => (w.later elapsed).Unblocked options ∧
      Advancing options directory (pass options directory w elapsed) rest

theorem mem_of_forall₂ {as bs : List SandboxLease} {r : SandboxLease → SandboxLease → Prop}
    (h : List.Forall₂ r as bs) {b : SandboxLease} (hb : b ∈ bs) : ∃ a ∈ as, r a b := by
  induction h with
  | nil => cases hb
  | cons hab _ ih =>
    cases hb with
    | head => exact ⟨_, List.mem_cons_self, hab⟩
    | tail _ hb =>
      obtain ⟨a, ha, hr⟩ := ih hb
      exact ⟨a, .tail _ ha, hr⟩

theorem SandboxWorld.Served.aligned (h : w.Served options) (ha : w.Aligned w') :
    w'.Served options := by
  intro lease hl
  obtain ⟨earlier, he, hevolves⟩ := mem_of_forall₂ ha hl
  have hprovider : lease.provider = earlier.provider :=
    congrArg SandboxReservationRecord.provider hevolves.record
  rw [hprovider]
  exact h earlier he

/-- A branch stays free as long as the leases keep their states. -/
theorem SandboxWorld.BranchFree.aligned (h : w.BranchFree lease) (ha : w.Aligned w')
    (he : totalRank w.leases ≤ totalRank w'.leases) : w'.BranchFree lease := by
  intro hgone hbuild other ho hne hbuild' hbranch hocc
  obtain ⟨earlier, hearlier, hid, hevolves, hstate⟩ :=
    mem_of_forall₂ (states_of_totalRank ha he) ho
  have hpurpose : other.purpose = earlier.purpose :=
    congrArg SandboxReservationRecord.purpose hevolves.record
  have hsame : other.branchId = earlier.branchId :=
    congrArg SandboxReservationRecord.branchId hevolves.record
  refine h hgone hbuild earlier hearlier (hid ▸ hne) (hpurpose ▸ hbuild') (hsame ▸ hbranch) ?_
  rwa [SandboxLease.Occupying, hstate] at hocc

theorem SandboxWorld.GivesWay.passed {mine : ObjectId → Prop} (h : w.GivesWay options lease)
    (hp : SandboxWorld.Passed mine w w') : w'.GivesWay options lease := by
  rw [GivesWay, Stale, hp.clock]
  rcases h with h | h | ⟨ref, hbound, h⟩
  · exact .inl h
  · exact .inr (.inl h)
  · exact .inr (.inr ⟨ref, hbound, h.imp_right fun hg => ⟨hg.1, hp.gone ref hg.2⟩⟩)

/-- A pass that finds the leases unblocked brings one of them further. -/
theorem pass_drops (hw : w.WellFormed) (hobliging : Obliging w.providers)
    (hserved : w.Served options) {elapsed : ℕ} (hl : lease ∈ (w.later elapsed).scanLeases)
    (hway : (w.later elapsed).GivesWay options lease)
    (hfree : (w.later elapsed).BranchFree lease) :
    totalRank (pass options directory w elapsed).leases < totalRank w.leases := by
  obtain ⟨w₁, hbefore, hstored, hafter⟩ := (@pass_at options directory)
    hw hl
  have hturn := (@passed_turn options directory) hbefore.wellFormed
    hstored
  have hle₁ : totalRank w₁.leases ≤ totalRank w.leases := totalRank_le hbefore.aligned
  have hle₂ := totalRank_le hturn.aligned
  have hle₃ := totalRank_le hafter.aligned
  by_contra hno
  obtain ⟨hmem, hstate⟩ := mem_scanLeases hl
  -- no state has changed up to the turn, which changes one
  obtain ⟨later, hlater, hmoved⟩ := (@turn_moves _ directory) hbefore.wellFormed hstored
    hstate (hbefore.obliging hobliging) (hserved lease hmem) (hway.passed hbefore)
    (hfree.aligned hbefore.aligned (show totalRank w.leases ≤ _ by omega))
  obtain ⟨other, hother, -, -, hsame⟩ := find_of_forall₂ (fun _ _ h => h.1)
    (states_of_totalRank hturn.aligned (by omega)) hstored
  cases hlater.symm.trans hother
  exact hmoved hsame

/-- What becomes of an overdue lease in a pass. -/
theorem pass_overdue (hw : w.WellFormed) (hobliging : Obliging w.providers)
    (hserved : w.Served options) {elapsed : ℕ} (hstored : w.lease? lease._id = some lease)
    (hdue : (w.later elapsed).Overdue lease) :
    ∃ later, (pass options directory w elapsed).lease? lease._id = some later ∧
      lease.Evolves later ∧
      (later.state = .terminated → (pass options directory w elapsed).Finished later) := by
  have hpass := (@passed_pass options directory) hw elapsed
  obtain ⟨later, hlater, hevolves⟩ := hpass.aligned.lease? hstored
  refine ⟨later, hlater, hevolves, fun hterminated => ?_⟩
  by_cases hscanned : AmongIds (w.later elapsed).scanLeases lease._id
  · obtain ⟨scanned, hl, hid⟩ := hscanned
    obtain rfl : scanned = lease := by
      have h := (hw.later elapsed).lease?_of_mem (mem_scanLeases hl).1
      rw [hid] at h
      exact Option.some.inj (h.symm.trans hstored)
    obtain ⟨w₁, hbefore, hstored₁, hafter⟩ := (@pass_at options directory) hw hl
    obtain ⟨final, hfinal, hfinished⟩ := (@turn_expired _ directory) hbefore.wellFormed
      hstored₁ hdue.2 (hbefore.obliging hobliging)
      (hserved _ (SandboxWorld.mem_of_lease? hstored)) (hbefore.clock ▸ hdue.1)
    have hkept := hafter.frame _ (not_not.mpr rfl)
    cases (hlater.symm.trans hkept).trans hfinal
    obtain ⟨-, hgone⟩ := hfinished hterminated
    exact ⟨hterminated, fun ref href => hafter.gone ref (hgone ref href)⟩
  · have hsame := (hpass.frame lease._id hscanned).symm.trans hlater
    cases (hsame.symm.trans hstored)
    exact absurd hterminated hdue.2

/-- A lease that is finished stays so. -/
theorem pass_finished (hw : w.WellFormed) (elapsed : ℕ) (hstored : w.lease? lease._id = some lease)
    (hfinished : w.Finished lease) :
    (pass options directory w elapsed).lease? lease._id = some lease ∧
      (pass options directory w elapsed).Finished lease := by
  have hpass := (@passed_pass options directory) hw elapsed
  refine ⟨(hpass.frame lease._id ?_).trans hstored, hfinished.1, fun ref href =>
    hpass.gone ref (hfinished.2 ref href)⟩
  rintro ⟨scanned, hl, hid⟩
  have h := (hw.later elapsed).lease?_of_mem (mem_scanLeases hl).1
  rw [hid] at h
  cases h.symm.trans hstored
  exact (mem_scanLeases hl).2 hfinished.1

theorem passes_finished (hw : w.WellFormed) (elapsed : List ℕ)
    (hstored : w.lease? lease._id = some lease) (hfinished : w.Finished lease) :
    (passes options directory w elapsed).lease? lease._id = some lease ∧
      (passes options directory w elapsed).Finished lease := by
  induction elapsed generalizing w with
  | nil => exact ⟨hstored, hfinished⟩
  | cons e rest ih =>
    obtain ⟨hstored', hfinished'⟩ := (@pass_finished options directory) hw
      e hstored hfinished
    exact ih (passed_pass hw e).wellFormed hstored' hfinished'

theorem SandboxLeaseState.rank_pos {state : SandboxLeaseState} (h : state ≠ .terminated) :
    0 < state.rank := by
  cases state <;> first | decide | exact absurd rfl h

theorem rank_le_totalRank {leases : List SandboxLease} (hl : lease ∈ leases) :
    lease.state.rank ≤ totalRank leases :=
  List.single_le_sum (fun _ _ => Nat.zero_le _) _ (List.mem_map_of_mem hl)

/-- The run lemma: as many passes as the rank of the leases finish one that is overdue. -/
theorem passes_overdue (hw : w.WellFormed) (hobliging : Obliging w.providers)
    (hserved : w.Served options) {elapsed : List ℕ}
    (hadvancing : Advancing options directory w elapsed)
    (hlong : totalRank w.leases ≤ elapsed.length) (hstored : w.lease? lease._id = some lease)
    (hdue : w.Overdue lease) :
    ∃ final, (passes options directory w elapsed).lease? lease._id = some final ∧
      (passes options directory w elapsed).Finished final := by
  induction elapsed generalizing w lease with
  | nil =>
    have hrank := rank_le_totalRank (SandboxWorld.mem_of_lease? hstored)
    have hpos := SandboxLeaseState.rank_pos hdue.2
    rw [List.length_nil] at hlong
    omega
  | cons e rest ih =>
    obtain ⟨hunblocked, hrest⟩ := hadvancing
    have hpass := (@passed_pass options directory) hw e
    have hdue' : (w.later e).Overdue lease := ⟨hdue.1.trans (Nat.le_add_right ..), hdue.2⟩
    obtain ⟨scanned, hl, hway, hfree⟩ :=
      hunblocked ⟨lease, SandboxWorld.mem_of_lease? hstored, hdue'⟩
    have hdrops := (@pass_drops _ directory) hw hobliging hserved hl hway hfree
    obtain ⟨later, hlater, hevolves, hfinished⟩ := (@pass_overdue _ directory) hw
      hobliging hserved hstored hdue'
    have hid := hevolves.id
    rw [← hid] at hlater ⊢
    by_cases hterminated : later.state = .terminated
    · obtain ⟨hfinal, hdone⟩ := (@passes_finished options directory)
        hpass.wellFormed rest hlater (hfinished hterminated)
      exact ⟨later, hfinal, hdone⟩
    · have hexpires : later.expiresAt = lease.expiresAt :=
        congrArg SandboxReservationRecord.expiresAt hevolves.record
      rw [List.length_cons] at hlong
      refine ih hpass.wellFormed (hpass.obliging hobliging) (hserved.aligned hpass.aligned) hrest
        (by omega) hlater ⟨?_, hterminated⟩
      rw [hexpires, hpass.clock]
      exact hdue'.1

/-- A lease that is overdue is scanned where one batch holds all leases; with one lease a branch
nothing is stuck then. -/
theorem advancing_of_few (hw : w.WellFormed)
    (hfew : w.leases.length ≤ SandboxWorld.SANDBOX_RECONCILER_BATCH_SIZE)
    (hbranches : (w.leases.map fun lease => lease.branchId).Nodup) (elapsed : List ℕ) :
    Advancing options directory w elapsed := by
  induction elapsed generalizing w with
  | nil => trivial
  | cons e rest ih =>
    refine ⟨?_, ?_⟩
    · rintro ⟨lease, hl, hexpired, hstate⟩
      have hscanned : lease ∈ (w.later e).scanLeases := by
        have hshort : ((w.later e).leases.filter fun lease => lease.state != .terminated).length ≤
            SandboxWorld.SANDBOX_RECONCILER_BATCH_SIZE := (List.length_filter_le ..).trans hfew
        rw [SandboxWorld.scanLeases, List.take_of_length_le hshort]
        exact List.mem_filter.mpr ⟨hl, by simpa using hstate⟩
      refine ⟨lease, hscanned, .inl hexpired, fun _ _ other ho hne _ hbranch _ => ?_⟩
      have hsame := List.inj_on_of_nodup_map hbranches ho hl hbranch
      exact hne (hsame ▸ rfl)
    · have hpass := (@passed_pass options directory) hw e
      have haligned : List.Forall₂ SandboxLease.Evolves w.leases
          (pass options directory w e).leases := hpass.aligned
      have hsame : (pass options directory w e).leases.map (fun lease => lease.branchId) =
          w.leases.map fun lease => lease.branchId := by
        refine (List.forall₂_eq_eq_eq ▸ List.forall₂_map_left_iff.mpr
          (List.forall₂_map_right_iff.mpr (haligned.imp fun a b h => ?_)) :
            w.leases.map _ = (pass options directory w e).leases.map _).symm
        exact (congrArg SandboxReservationRecord.branchId h.record).symm
      exact ih hpass.wellFormed (haligned.length_eq ▸ hfew) (hsame ▸ hbranches)

/-- A pass that scans only leases whose end another build of the branch holds up. -/
theorem pass_blocked (hw : w.WellFormed) (elapsed : ℕ)
    (hblocked : ∀ lease ∈ w.scanLeases, lease.state ∈ [.failed, .lost] ∧ ¬ w.BranchFree lease)
    (hlist : ∀ kind filter, w.providers.list kind filter = []) :
    pass options directory w elapsed = w.later elapsed := by
  have hturns : ∀ leases : List SandboxLease, leases ⊆ w.scanLeases →
      turns options directory (w.later elapsed) leases = w.later elapsed := by
    intro leases hsub
    induction leases with
    | nil => rfl
    | cons lease rest ih =>
      obtain ⟨hl, hrest⟩ := List.cons_subset.mp hsub
      obtain ⟨hstate, hbusy⟩ := hblocked lease hl
      obtain ⟨hmem, hleft⟩ := mem_scanLeases hl
      have hdue : lease.state ∈ [.failed, .lost, .terminating] := by
        simp only [List.mem_cons, List.not_mem_nil, or_false] at hstate ⊢
        exact hstate.imp_right .inl
      have hturn : turn options directory (w.later elapsed) lease = w.later elapsed :=
        congrArg Prod.snd ((turn_terminates (.inr hdue) hleft).trans
          (terminateTurn_refused (hw.later elapsed) (hw.lease?_of_mem hmem) hleft hbusy))
      rw [turns, List.foldl_cons, hturn]
      exact ih hrest
  have horphans : ∀ kind,
      orphanTurn options directory (w.later elapsed) kind = w.later elapsed := by
    intro kind
    have hnone : settled directory (perform (.list kind { labels := [("managed-by", "open-v0")] }))
        (w.later elapsed) = (.ok [], w.later elapsed) :=
      (settled_perform ..).trans (Prod.ext (congrArg Except.ok (hlist kind _)) rfl)
    refine (congrArg Prod.snd (settled_bind hnone)).trans ?_
    exact congrArg Prod.snd (settled_now _ _)
  rw [pass_eq]
  refine (congrArg (options.kinds.foldl _) (hturns _ (List.Subset.refl _))).trans ?_
  induction options.kinds with
  | nil => rfl
  | cons kind kinds ih => rw [List.foldl_cons, horphans, ih]

theorem passes_blocked (hw : w.WellFormed) (elapsed : List ℕ)
    (hblocked : ∀ lease ∈ w.scanLeases, lease.state ∈ [.failed, .lost] ∧ ¬ w.BranchFree lease)
    (hlist : ∀ kind filter, w.providers.list kind filter = []) :
    (passes options directory w elapsed).leases = w.leases := by
  induction elapsed generalizing w with
  | nil => rfl
  | cons e rest ih =>
    have hpass := (@pass_blocked options directory) hw e hblocked hlist
    rw [passes, List.foldl_cons, hpass]
    exact ih (hw.later e) hblocked hlist

end Progress

section Runs

/-- Over passes that all find the leases unblocked, as many as the leases have transitions before
them: every lease that has expired is terminated then, and its resource is missing. -/
theorem expired_leases_terminate (options : SandboxServiceOptions) (directory : Directory)
    {w : SandboxWorld key} (hw : w.WellFormed) (hobliging : Obliging w.providers)
    (hserved : w.Served options) {elapsed : List ℕ}
    (hadvancing : Advancing options directory w elapsed)
    (hlong : totalRank w.leases ≤ elapsed.length) :
    ∀ lease ∈ w.leases, lease.expiresAt ≤ w.clock →
      (lease.state = .terminated → w.Finished lease) →
      ∃ final, (passes options directory w elapsed).lease? lease._id = some final ∧
        (passes options directory w elapsed).Finished final := by
  intro lease hl hexpired hfinished
  have hstored := hw.lease?_of_mem hl
  by_cases hstate : lease.state = .terminated
  · exact ⟨lease, passes_finished hw elapsed hstored (hfinished hstate)⟩
  · exact passes_overdue hw hobliging hserved hadvancing hlong hstored ⟨hexpired, hstate⟩

/-- The lease of a build of branch `3`. -/
private def buildLease (n : ℕ) (state : SandboxLeaseState) : SandboxLease :=
  { reservationRecord sampleOptions.config { sampleInput with runId := n } 0 0 with
    _id := n
    externalId := none
    state := state
    readyAt := none
    lastHeartbeatAt := none
    terminatedAt := none
    error := none
    updatedAt := 0 }

private theorem buildLease_provisioningKey {n m : ℕ} {state state' : SandboxLeaseState}
    (h : (buildLease n state).provisioningKey = (buildLease m state').provisioningKey) : n = m := by
  have hnumber : Nat.repr n = Nat.repr m := by
    simpa [buildLease, reservationRecord, buildSpec] using h
  have hdigits : Nat.toDigits 10 n = Nat.toDigits 10 m := by
    have hchars := congrArg String.toList hnumber
    rwa [Nat.repr, Nat.repr, String.toList_ofList, String.toList_ofList] at hchars
  rw [← @Nat.ofDigitChars_ten_toDigits n, hdigits, Nat.ofDigitChars_ten_toDigits]

/-- The build of run `6` is ready, and has expired. -/
private def readyWorld : SandboxWorld sampleKey :=
  { sampleWorld with
    clock := 900000
    nextId := 7
    leases := [{ buildLease 6 .ready with externalId := some "abuild:6:1" }] }

private theorem readyWorld_wellFormed : readyWorld.WellFormed where
  fresh := by decide
  ids := by decide
  apart := by decide
  binds lease hl ref href := by
    cases List.mem_singleton.mp hl
    cases href
    decide

private theorem sample_obliging (gone : List SandboxRef) : Obliging (sampleProviders 'a' gone) :=
  ⟨fun _ => ⟨_, rfl, rfl⟩, fun _ => ⟨_, rfl⟩⟩

theorem ready_lease_terminates : ∃ final,
    (passes sampleOptions sampleDirectory readyWorld [0, 30000, 0, 30000]).lease? 6 = some final ∧
      (passes sampleOptions sampleDirectory readyWorld [0, 30000, 0, 30000]).Finished final :=
  expired_leases_terminate sampleOptions sampleDirectory readyWorld_wellFormed (sample_obliging [])
    (by rw [SandboxWorld.Served]; decide)
    (advancing_of_few readyWorld_wellFormed (by decide) (by decide) _) (by decide) _
    List.mem_cons_self (by decide) (fun h => absurd h (by decide))

/-- A hundred builds of branch `3` have failed, and the last one is ready; all have expired. -/
private def crowdedWorld : SandboxWorld sampleKey :=
  { sampleWorld with
    clock := 900000
    nextId := 101
    leases := (List.range 101).map fun n => buildLease n (if n = 100 then .ready else .failed) }

private theorem crowdedWorld_wellFormed : crowdedWorld.WellFormed where
  fresh := by decide
  ids := by decide +kernel
  apart a ha b hb hne := by
    obtain ⟨n, hn, rfl⟩ := List.mem_map.mp ha
    obtain ⟨m, hm, rfl⟩ := List.mem_map.mp hb
    have hkey : ((buildLease n (if n = 100 then .ready else .failed)).provisioningKey ==
        (buildLease m (if m = 100 then .ready else .failed)).provisioningKey) = false := by
      rw [beq_eq_false_iff_ne]
      exact fun h => hne (buildLease_provisioningKey h)
    have hidle : ∀ k, k ≠ 100 →
        decide (buildLease k (if k = 100 then .ready else .failed)).Occupying = false := by
      intro k hk
      rw [if_neg hk]
      rfl
    have hother : n ≠ 100 ∨ m ≠ 100 := by
      by_contra hboth
      rw [not_or, not_not, not_not] at hboth
      exact hne (hboth.1.trans hboth.2.symm)
    have hnoRef : ∀ k state, (buildLease k state).ref?.isSome = false := fun _ _ => rfl
    rw [SandboxWorld.collide, hkey, hnoRef]
    rcases hother with h | h
    · rw [hidle n h]
      simp
    · rw [hidle m h]
      simp
  binds lease hl ref href := by
    obtain ⟨n, -, rfl⟩ := List.mem_map.mp hl
    cases href

private theorem crowdedWorld_blocked : ∀ lease ∈ crowdedWorld.scanLeases,
    lease.state ∈ [.failed, .lost] ∧ ¬ crowdedWorld.BranchFree lease := by
  have hscan : ∀ lease ∈ crowdedWorld.scanLeases, lease.state = .failed ∧
      lease.purpose = .build ∧ lease.branchId = 3 ∧ lease._id ≠ 100 := by decide
  intro lease hl
  obtain ⟨hstate, hbuild, hbranch, hid⟩ := hscan lease hl
  refine ⟨by simp [hstate], fun hfree => ?_⟩
  exact hfree (.inl hstate) hbuild (buildLease 100 .ready) (by decide) hid.symm rfl
    hbranch.symm (by decide)

theorem crowded_lease_stays : ¬ ∀ (key : SandboxRef → String) (options : SandboxServiceOptions)
    (directory : Directory) (w : SandboxWorld key), w.WellFormed → Obliging w.providers →
    w.Served options → ∃ n, ∀ elapsed : List ℕ, n ≤ elapsed.length →
      ∀ lease ∈ w.leases, lease.expiresAt ≤ w.clock →
        (lease.state = .terminated → w.Finished lease) →
        ∃ final, (passes options directory w elapsed).lease? lease._id = some final ∧
          (passes options directory w elapsed).Finished final := by
  intro h
  obtain ⟨n, hn⟩ := h _ sampleOptions sampleDirectory crowdedWorld crowdedWorld_wellFormed
    (sample_obliging []) (by rw [SandboxWorld.Served]; decide +kernel)
  obtain ⟨final, hfinal, hfinished⟩ := hn (List.replicate n 30000) (by simp)
    (buildLease 100 .ready) (by decide +kernel) (by decide +kernel)
    (fun h => absurd h (by decide))
  have hsame := (@passes_blocked sampleOptions sampleDirectory)
    crowdedWorld_wellFormed (List.replicate n 30000) crowdedWorld_blocked fun _ _ => rfl
  rw [SandboxWorld.lease?, hsame] at hfinal
  have hready : (crowdedWorld.lease? 100).map (·.state) = some .ready := by decide +kernel
  have hstored : crowdedWorld.lease? 100 = some final := hfinal
  rw [hstored, Option.map_some, hfinished.1] at hready
  cases hready

end Runs

end AppBuilder.Sandbox
