import AppBuilder.Async.Discipline
import AppBuilder.Branches.BranchExecution
import AppBuilder.Store.Laws

/-! Execution leases under any interleaving of acquisition, heartbeats, expiry, `assertHeld` and
release. -/
namespace AppBuilder.Branches
open Agent Async Store

/-- The calls that touch a lease. The heartbeat and the monitor are called by timers. -/
inductive LeaseCall where
  | acquire (runId : ObjectId) (ttlMs : ℕ)
  | heartbeat (guard : GuardHandle)
  | assertHeld (guard : GuardHandle)
  | release (guard : GuardHandle)
  | checkCancellation (guard : GuardHandle)
  deriving DecidableEq

/-- `elapse` moves the clock that all workers share, `expire` is the database removing an expired
row, and `writeRuns` is anything that the rest of the server stores in runs. -/
inductive LeaseAct where
  | elapse (ms : ℕ)
  | expire (leaseId : ObjectId)
  | writeRuns (runs : List AgentRun)

def LeaseCall.body : LeaseCall → Promise (Option GuardHandle)
  | .acquire runId ttlMs => acquireBranchExecution runId ttlMs
  | .heartbeat guard => do Branches.heartbeat guard; return none
  | .assertHeld guard => do Branches.assertHeld guard; return none
  | .release guard => do Branches.release guard; return none
  | .checkCancellation guard => do Branches.checkCancellation guard; return none

def LeaseCall.spawnable : LeaseCall → World → Bool
  | .acquire .., _ => true
  | .heartbeat guard, w | .assertHeld guard, w | .release guard, w | .checkCancellation guard, w =>
    w.guards.any fun g => g.handle == guard

def LeaseAct.apply : LeaseAct → World → Option World
  | .elapse ms, w => some { w with clock := w.clock + ms }
  | .expire leaseId, w =>
    if (findById w.leases leaseId).any fun l => l.expiresAt ≤ w.clock then
      some { w with leases := deleteById w.leases leaseId }
    else none
  | .writeRuns runs, w => some { w with runs }

def leasing : Machine api World LeaseCall (Option GuardHandle) LeaseAct where
  exec t _ op w := World.exec t none op w
  body := LeaseCall.body
  fault := Op.mayFail
  spawnable := LeaseCall.spawnable
  act := LeaseAct.apply
  crashes := true
  onCrash _ w := w

abbrev Leasing : Type := Config api World LeaseCall (Option GuardHandle)

/-- The operations of a guard on its own lease, its own run and its own variables. -/
inductive Uses (g : GuardHandle) : Op → Prop where
  | now : Uses g .now
  | loadStatus : Uses g (.findRunStatus g.runId)
  | readAborted : Uses g (.guardAborted g.guardId)
  | readLost : Uses g (.guardLost g.guardId)
  | setLost (lost : Bool) : Uses g (.setGuardLost g.guardId lost)
  | beginRenewal : Uses g (.beginRenewal g.guardId)
  | endRenewal : Uses g (.endRenewal g.guardId)
  | monitorActive : Uses g (.monitorActive g.guardId)
  | abort : Uses g (.abortGuard g.guardId)
  | clearHeartbeat : Uses g (.clearHeartbeat g.guardId)
  | closeMonitor : Uses g (.closeMonitor g.guardId)
  | renew (now : Time) : Uses g (.renewLease g.leaseId g.runId now g.ttlMs)
  | check (now : Time) : Uses g (.leaseHeld g.leaseId g.runId now)
  | delete : Uses g (.deleteLease g.leaseId g.runId)

inductive LeasePhase where
  | acquiring
  | leased (leaseId branchId : ObjectId)
  | acquired
  | running (g : GuardHandle)
  /-- The renewal was refused or has failed. -/
  | unrenewed (g : GuardHandle)
  | asserting (g : GuardHandle)
  | lostSeen (g : GuardHandle)
  | checking (g : GuardHandle)

def LeasePhase.permits : LeasePhase → Op → Prop
  | .acquiring, op => (∃ r, op = .findRun r .acquireBranchExecution) ∨ op = .now ∨
      ∃ fields now, op = .upsertLease fields now
  | .leased leaseId branchId, op => ∃ runId ttlMs, op = .newGuard leaseId runId branchId ttlMs
  | .acquired, _ => False
  | .unrenewed g, op => op = .setGuardLost g.guardId true
  | .lostSeen _, _ => False
  | .running g, op | .asserting g, op | .checking g, op => Uses g op

def LeasePhase.next : LeasePhase → (op : Op) → api.Answer op → LeasePhase
  | .acquiring, .upsertLease _ _, .ok lease => .leased lease._id lease.branchId
  | .leased .., _, _ => .acquired
  | .running g, .renewLease .., .ok modifiedCount =>
    if modifiedCount = 1 then .running g else .unrenewed g
  | .running g, .renewLease .., .error _ => .unrenewed g
  | .unrenewed g, _, _ => .running g
  | .asserting g, .guardLost _, .ok lost => if lost then .lostSeen g else .checking g
  | φ, _, _ => φ

def leaseProtocol : Protocol api LeasePhase :=
  ⟨LeasePhase.permits, Op.Answered, LeasePhase.next⟩

def LeaseCall.start : LeaseCall → LeasePhase
  | .acquire .. => .acquiring
  | .assertHeld g => .asserting g
  | .heartbeat g | .release g | .checkCancellation g => .running g

/-- A call of a guard ends where its renewals are accounted for, and an `assertHeld` that
returns has read `lost` as false. -/
def LeaseCall.returns : LeaseCall → Option GuardHandle → LeasePhase → Prop
  | .acquire .., _, _ => True
  | .assertHeld g, _, φ => φ = .checking g
  | .heartbeat g, _, φ | .release g, _, φ | .checkCancellation g, _, φ => φ = .running g

/-- A heartbeat catches every error. -/
def LeaseCall.throws : LeaseCall → AgentError → LeasePhase → Prop
  | .heartbeat _, _, _ => False
  | _, _, _ => True

section Walk

variable {g : GuardHandle}

private theorem heartbeat_tracks : leaseProtocol.Tracks (Branches.heartbeat g) (.running g)
    (fun _ φ => φ = .running g) (fun _ _ => False) := by
  refine tracks_memory rfl .beginRenewal rfl fun begun _ => ?_
  cases begun with
  | false => exact rfl
  | true =>
    refine tracks_memory rfl .now rfl fun now _ => ?_
    refine (Protocol.tracks_bind ..).mpr ((Protocol.tracks_tryCatch ..).mpr ?_)
    refine tracks_then (.renew now) (fun modifiedCount _ => ?_) fun e _ => ?_
    · show leaseProtocol.Tracks (if modifiedCount = 1 then pure () else _)
        (if modifiedCount = 1 then .running g else .unrenewed g) _ _
      split_ifs
      · exact tracks_memory_last rfl .endRenewal rfl fun _ _ => rfl
      · exact tracks_memory_last rfl rfl rfl fun _ _ =>
          tracks_memory_last rfl .endRenewal rfl fun _ _ => rfl
    · exact tracks_memory_last rfl rfl rfl fun _ _ =>
        tracks_memory_last rfl .endRenewal rfl fun _ _ => rfl

private theorem assertHeld_tracks : leaseProtocol.Tracks (Branches.assertHeld g) (.asserting g)
    (fun _ φ => φ = .checking g) (fun _ _ => True) := by
  refine (Protocol.tracks_bind ..).mpr (tracks_throwIfAborted rfl .readAborted ?_ trivial)
  refine tracks_memory rfl .readLost rfl fun lost _ => ?_
  cases lost with
  | true => exact trivial
  | false =>
    refine (Protocol.tracks_bind ..).mpr ?_
    refine tracks_memory rfl .now rfl fun now _ => ?_
    refine tracks_then (.check now) (fun held _ => ?_) fun _ _ => trivial
    refine tracks_memory rfl (.setLost _) rfl fun _ _ => ?_
    cases held with
    | true => exact tracks_throwIfAborted rfl .readAborted rfl trivial
    | false => exact trivial

private theorem release_tracks : leaseProtocol.Tracks (Branches.release g) (.running g)
    (fun _ φ => φ = .running g) (fun _ _ => True) := by
  refine tracks_memory rfl .clearHeartbeat rfl fun _ _ => ?_
  refine tracks_memory rfl .closeMonitor rfl fun _ _ => ?_
  exact tracks_last .delete (fun _ _ => rfl) fun _ _ => trivial

private theorem checkCancellation_tracks :
    leaseProtocol.Tracks (Branches.checkCancellation g) (.running g)
      (fun _ φ => φ = .running g) (fun _ _ => True) := by
  refine tracks_memory rfl .monitorActive rfl fun active _ => ?_
  cases active with
  | false => exact rfl
  | true =>
    refine (Protocol.tracks_bind ..).mpr ((Protocol.tracks_attempt ..).mpr ?_)
    refine tracks_last .loadStatus (fun status _ => ?_) fun _ _ => rfl
    split
    · exact tracks_memory_last rfl .abort rfl fun _ _ => rfl
    · exact rfl

private theorem acquire_tracks (runId : ObjectId) (ttlMs : ℕ) :
    leaseProtocol.Tracks (acquireBranchExecution runId ttlMs) .acquiring
      (fun _ _ => True) (fun _ _ => True) := by
  refine tracks_then (.inl ⟨_, rfl⟩) (fun run _ => ?_) fun _ _ => trivial
  split
  · exact trivial
  split
  · refine tracks_memory rfl (.inr (.inl rfl)) rfl fun now _ => ?_
    refine (Protocol.tracks_bind ..).mpr ((Protocol.tracks_tryCatch ..).mpr ?_)
    refine tracks_then (.inr (.inr ⟨_, _, rfl⟩)) (fun lease hl => ?_) fun e _ => ?_
    · show leaseProtocol.Tracks (ite _ _ _) _ _ _
      split
      · have hb := congrArg BranchExecutionLease.branchId (answered_upsertLease hl)
        exact tracks_memory rfl ⟨_, _, congrArg (Op.newGuard _ _ · _) hb.symm⟩ rfl fun _ _ => trivial
      · exact trivial
    · show leaseProtocol.Tracks (ite _ _ _) _ _ _
      split
      · exact trivial
      · exact trivial
  · exact trivial

def leaseConformance : Conformance leasing leaseProtocol where
  start := LeaseCall.start
  crash := id
  returns := LeaseCall.returns
  throws := LeaseCall.throws
  body_tracks call := by
    cases call with
    | acquire runId ttlMs => exact acquire_tracks runId ttlMs
    | heartbeat g => exact (Protocol.tracks_bind ..).mpr heartbeat_tracks
    | assertHeld g => exact (Protocol.tracks_bind ..).mpr assertHeld_tracks
    | release g => exact (Protocol.tracks_bind ..).mpr release_tracks
    | checkCancellation g => exact (Protocol.tracks_bind ..).mpr checkCancellation_tracks
  possible op r h := by
    obtain ⟨t, call, w, o, ho, rfl⟩ := h
    cases o with
    | done => exact .inl ⟨t, none, w, rfl⟩
    | refused e => exact .inr ⟨e, rfl, ho⟩
    | unacknowledged e => exact .inr ⟨e, rfl, ho⟩

end Walk

/-- At most one stored lease for a branch, whatever its run and its expiry. -/
structure LeaseTable (w : World) : Prop where
  oneRow : ∀ l ∈ w.leases, ∀ l' ∈ w.leases, l.branchId = l'.branchId ∨ l._id = l'._id → l = l'
  fresh : ∀ l ∈ w.leases, l._id < w.nextId

/-- While a lease with this `_id` is stored it is the one of this branch. -/
def Belongs (leaseId branchId : ObjectId) (w : World) : Prop :=
  leaseId < w.nextId ∧ ∀ l ∈ w.leases, l._id = leaseId → l.branchId = branchId

/-- Rows keep their branch, and the `_id` of a deleted row is not used again. -/
structure RowsKept (w w' : World) : Prop where
  nextId : w.nextId ≤ w'.nextId
  rows : ∀ l' ∈ w'.leases,
    (∃ l ∈ w.leases, l._id = l'._id ∧ l.branchId = l'.branchId) ∨ w.nextId ≤ l'._id

theorem RowsKept.refl (w : World) : RowsKept w w :=
  ⟨Nat.le_refl _, fun l hl => .inl ⟨l, hl, rfl, rfl⟩⟩

theorem Belongs.kept {leaseId branchId : ObjectId} {w w' : World} (h : Belongs leaseId branchId w)
    (hk : RowsKept w w') : Belongs leaseId branchId w' := by
  refine ⟨Nat.lt_of_lt_of_le h.1 hk.nextId, fun l' hl' hid => ?_⟩
  rcases hk.rows l' hl' with ⟨l, hl, hid', hb⟩ | hnew
  · rw [← hb]
    exact h.2 l hl (hid'.trans hid)
  · exact absurd h.1 (Nat.not_lt.mpr (hid ▸ hnew))

/-- Rewriting rows in place, without touching `_id` and branch. -/
theorem LeaseTable.map {w v : World} (h : LeaseTable w)
    {f : BranchExecutionLease → BranchExecutionLease} (hw : v.leases = w.leases.map f)
    (hn : v.nextId = w.nextId)
    (hf : ∀ l ∈ w.leases, (f l)._id = l._id ∧ (f l).branchId = l.branchId) :
    LeaseTable v ∧ RowsKept w v := by
  refine ⟨⟨fun a ha b hb hab => ?_, fun a ha => ?_⟩, ⟨Nat.le_of_eq hn.symm, fun a ha => ?_⟩⟩
  all_goals
    rw [hw] at ha
    obtain ⟨l, hl, rfl⟩ := List.mem_map.mp ha
    obtain ⟨hid, hbr⟩ := hf l hl
  · rw [hw] at hb
    obtain ⟨l', hl', rfl⟩ := List.mem_map.mp hb
    obtain ⟨hid', hbr'⟩ := hf l' hl'
    rw [hid, hbr, hid', hbr'] at hab
    rw [h.oneRow l hl l' hl' hab]
  · rw [hid, hn]
    exact h.fresh l hl
  · exact .inl ⟨l, hl, hid.symm, hbr.symm⟩

theorem LeaseTable.subset {w v : World} (h : LeaseTable w)
    (hw : ∀ l ∈ v.leases, l ∈ w.leases) (hn : w.nextId ≤ v.nextId) :
    LeaseTable v ∧ RowsKept w v :=
  ⟨⟨fun a ha b hb hab => h.oneRow a (hw a ha) b (hw b hb) hab,
      fun a ha => Nat.lt_of_lt_of_le (h.fresh a (hw a ha)) hn⟩,
    ⟨hn, fun a ha => .inl ⟨a, hw a ha, rfl, rfl⟩⟩⟩

theorem LeaseTable.insert {w v : World} (h : LeaseTable w) {l : BranchExecutionLease}
    (hb : ∀ l' ∈ w.leases, l'.branchId ≠ l.branchId) (hid : l._id = w.nextId)
    (hw : v.leases = w.leases ++ [l]) (hn : v.nextId = w.nextId + 1) :
    LeaseTable v ∧ RowsKept w v := by
  have hlt : ∀ a ∈ w.leases, a._id ≠ l._id := fun a ha he =>
    Nat.lt_irrefl _ (hid ▸ he ▸ h.fresh a ha)
  refine ⟨⟨fun a ha b hb' hab => ?_, fun a ha => ?_⟩, ⟨hn ▸ Nat.le_succ _, fun a ha => ?_⟩⟩
  all_goals
    rw [hw, List.mem_append, List.mem_singleton] at ha
  · rw [hw, List.mem_append, List.mem_singleton] at hb'
    rcases ha with ha | rfl <;> rcases hb' with hb' | rfl
    · exact h.oneRow a ha b hb' hab
    · exact absurd hab (not_or.mpr ⟨hb a ha, hlt a ha⟩)
    · exact absurd hab (not_or.mpr ⟨fun e => hb b hb' e.symm, fun e => hlt b hb' e.symm⟩)
    · rfl
  · rw [hn]
    rcases ha with ha | rfl
    · exact Nat.lt_succ_of_lt (h.fresh a ha)
    · exact Nat.lt_succ_of_le (Nat.le_of_eq hid)
  · rcases ha with ha | rfl
    · exact .inl ⟨a, ha, rfl, rfl⟩
    · exact .inr (Nat.le_of_eq hid.symm)

theorem LeaseTable.upsertLease {w : World} (h : LeaseTable w) (fields : BranchExecutionLease)
    (now : Time) :
    (LeaseTable (w.upsertLease fields now).2 ∧ RowsKept w (w.upsertLease fields now).2) ∧
      ∀ l, (w.upsertLease fields now).1 = .ok l →
        Belongs l._id l.branchId (w.upsertLease fields now).2 := by
  rcases World.upsertLease_cases w fields now with ⟨row, hrow, hb, -, hw⟩ | hw | ⟨hfree, hw⟩
  · rw [hw]
    have hkeep : ∀ l ∈ w.leases,
        (if docId l == row._id then { fields with _id := l._id } else l)._id = l._id ∧
        (if docId l == row._id then { fields with _id := l._id } else l).branchId =
          l.branchId := by
      intro l hl
      split_ifs with hid
      · exact ⟨rfl, hb.symm.trans (congrArg _ (h.oneRow l hl row hrow (.inr (by simpa using hid))).symm)⟩
      · exact ⟨rfl, rfl⟩
    have hmap := h.map (v := { w with leases := modifyById w.leases row._id _ }) rfl rfl hkeep
    refine ⟨hmap, fun l hl => ?_⟩
    cases Except.ok.inj hl
    have hrow' : Belongs row._id fields.branchId w :=
      ⟨h.fresh row hrow, fun l hl hid => hb ▸ congrArg _ (h.oneRow l hl row hrow (.inr hid))⟩
    exact hrow'.kept hmap.2
  · rw [hw]
    exact ⟨⟨h, .refl w⟩, fun l hl => by cases hl⟩
  · rw [hw]
    have hins := h.insert (l := { fields with _id := w.nextId }) hfree rfl
      (v := { w with leases := w.leases ++ [_], nextId := w.nextId + 1 }) rfl rfl
    refine ⟨hins, fun l hl => ?_⟩
    cases Except.ok.inj hl
    have hmem : ({ fields with _id := w.nextId } : BranchExecutionLease) ∈
        w.leases ++ [{ fields with _id := w.nextId }] := by simp
    exact ⟨hins.1.fresh _ hmem, fun a ha hid => congrArg _ (hins.1.oneRow a ha _ hmem (.inr hid))⟩

/-- The operations of a guard keep the table; only a guard's own variables change. -/
theorem LeaseTable.uses {w : World} (h : LeaseTable w) {g : GuardHandle} {op : Op}
    (hop : Uses g op) (t : ThreadId) :
    LeaseTable (World.exec t none op w).2 ∧ RowsKept w (World.exec t none op w).2 := by
  cases hop with
  | renew now =>
    rcases World.renewLease_cases w g.leaseId g.runId now g.ttlMs with ⟨l, -, -, hw⟩ | hw
    · simp only [World.exec, World.answer, hw]
      refine h.map rfl rfl fun l _ => ?_
      split_ifs
      · exact ⟨rfl, rfl⟩
      · exact ⟨rfl, rfl⟩
    · simp only [World.exec, World.answer, hw]
      exact ⟨h, .refl w⟩
  | delete => exact h.subset (fun l hl => List.mem_of_mem_filter hl) (Nat.le_refl _)
  | beginRenewal =>
    simp only [World.exec]
    split_ifs
    · exact h.subset (fun l hl => hl) (Nat.le_refl _)
    · exact ⟨h, .refl w⟩
  | _ => exact h.subset (fun l hl => hl) (Nat.le_refl _)

/-- A guard keeps its handle. -/
theorem Uses.handles {w : World} {g : GuardHandle} {op : Op} (hop : Uses g op) (t : ThreadId) :
    ∀ x' ∈ (World.exec t none op w).2.guards, ∃ x ∈ w.guards, x.handle = x'.handle := by
  have hmod {i : ObjectId} {f : ExecutionGuard → ExecutionGuard} (hf : ∀ x, (f x).handle = x.handle) :
      ∀ x' ∈ (w.modifyGuard i f).guards, ∃ x ∈ w.guards, x.handle = x'.handle := by
    intro x' hx'
    obtain ⟨x, hx, rfl⟩ := List.mem_map.mp hx'
    refine ⟨x, hx, ?_⟩
    split_ifs
    · exact (hf x).symm
    · rfl
  have hsame : ∀ x' ∈ w.guards, ∃ x ∈ w.guards, x.handle = x'.handle := fun x hx => ⟨x, hx, rfl⟩
  cases hop with
  | setLost lost => exact hmod fun x => rfl
  | abort => exact hmod fun x => rfl
  | endRenewal => exact hmod fun x => rfl
  | clearHeartbeat => exact hmod fun x => rfl
  | closeMonitor => exact hmod fun x => rfl
  | beginRenewal =>
    simp only [World.exec]
    split_ifs
    · exact hmod fun x => rfl
    · exact hsame
  | renew now =>
    rcases World.renewLease_cases w g.leaseId g.runId now g.ttlMs with ⟨l, -, -, hw⟩ | hw <;>
      simp only [World.exec, World.answer, hw] <;> exact hsame
  | _ => exact hsame

/-- A row of another run survives the operations of a guard unchanged. -/
theorem LeaseTable.others {w : World} (h : LeaseTable w) {g : GuardHandle} {op : Op}
    (hop : Uses g op) (t : ThreadId) :
    ∀ l ∈ w.leases, l.runId ≠ g.runId → l ∈ (World.exec t none op w).2.leases := by
  intro l hl hr
  cases hop with
  | renew now =>
    rcases World.renewLease_cases w g.leaseId g.runId now g.ttlMs with ⟨row, hrow, hrun, hw⟩ | hw
    · simp only [World.exec, World.answer, hw]
      refine List.mem_map.mpr ⟨l, hl, if_neg fun hid => hr ?_⟩
      have hid' : l._id = row._id := (eq_of_beq hid).trans (docId_of_findById hrow).symm
      rw [h.oneRow l hl row (mem_of_findById hrow) (.inr hid'), hrun]
    · simp only [World.exec, World.answer, hw]
      exact hl
  | delete => exact List.mem_filter.mpr ⟨hl, by simp [hr]⟩
  | beginRenewal =>
    simp only [World.exec]
    split_ifs <;> exact hl
  | _ => exact hl

def LeaseCall.guard? : LeaseCall → Option GuardHandle
  | .acquire .. => none
  | .heartbeat g | .assertHeld g | .release g | .checkCancellation g => some g

def LeasePhase.Own (call : LeaseCall) (w : World) : LeasePhase → Prop
  | .leased leaseId branchId => call.guard? = none ∧ Belongs leaseId branchId w
  | .acquiring | .acquired => call.guard? = none
  | .running g | .unrenewed g =>
    call = .heartbeat g ∨ call = .release g ∨ call = .checkCancellation g
  | .asserting g | .lostSeen g | .checking g => call = .assertHeld g

theorem LeasePhase.Own.kept {call : LeaseCall} {w w' : World} {φ : LeasePhase}
    (h : φ.Own call w) (hk : RowsKept w w') : φ.Own call w' := by
  cases φ with
  | leased leaseId branchId => exact ⟨h.1, h.2.kept hk⟩
  | _ => exact h

structure LeaseInv (w : World) : Prop where
  table : LeaseTable w
  guards : ∀ g ∈ w.guards, Belongs g.leaseId g.branchId w

theorem LeaseInv.uses {w : World} (h : LeaseInv w) {g : GuardHandle} {op : Op}
    (hop : Uses g op) (t : ThreadId) :
    LeaseInv (World.exec t none op w).2 ∧ RowsKept w (World.exec t none op w).2 := by
  obtain ⟨htable, hkept⟩ := h.table.uses hop t
  refine ⟨⟨htable, fun x' hx' => ?_⟩, hkept⟩
  obtain ⟨x, hx, hh⟩ := hop.handles t x' hx'
  have hl : x.leaseId = x'.leaseId := congrArg GuardHandle.leaseId hh
  have hb : x.branchId = x'.branchId := congrArg GuardHandle.branchId hh
  rw [← hl, ← hb]
  exact (h.guards x hx).kept hkept

theorem LeaseInv.newGuard {w : World} (h : LeaseInv w) (t : ThreadId) (runId : ObjectId)
    (ttlMs : ℕ) {leaseId branchId : ObjectId} (hb : Belongs leaseId branchId w) :
    LeaseInv (World.exec t none (.newGuard leaseId runId branchId ttlMs) w).2 ∧
      RowsKept w (World.exec t none (.newGuard leaseId runId branchId ttlMs) w).2 := by
  have hsub := h.table.subset
    (v := (World.exec t none (.newGuard leaseId runId branchId ttlMs) w).2)
    (fun l hl => hl) (Nat.le_succ _)
  refine ⟨⟨hsub.1, fun x hx => ?_⟩, hsub.2⟩
  rcases List.mem_append.mp hx with hx | hx
  · exact (h.guards x hx).kept hsub.2
  · rw [List.mem_singleton.mp hx]
    exact hb.kept hsub.2

theorem LeaseInv.upsertLease {w : World} (h : LeaseInv w) (fields : BranchExecutionLease)
    (now : Time) :
    LeaseInv (w.upsertLease fields now).2 ∧ RowsKept w (w.upsertLease fields now).2 := by
  obtain ⟨⟨htable, hkept⟩, -⟩ := h.table.upsertLease fields now
  refine ⟨⟨htable, fun x hx => ?_⟩, hkept⟩
  have hguards : (w.upsertLease fields now).2.guards = w.guards := by
    rcases World.upsertLease_cases w fields now with ⟨l, -, -, -, hw⟩ | hw | ⟨-, hw⟩ <;> rw [hw]
  exact (h.guards x (hguards ▸ hx)).kept hkept

/-- The step lemma: whatever the outcome of a permitted operation. -/
theorem lease_step {t : ThreadId} {call : LeaseCall} {w : World} {φ : LeasePhase} {op : Op}
    {o : Outcome AgentError} (h : LeaseInv w) (hown : φ.Own call w) (hp : φ.permits op) :
    LeaseInv (leasing.perform t call op w o).2 ∧
      (φ.next op (leasing.perform t call op w o).1).Own call (leasing.perform t call op w o).2 ∧
      RowsKept w (leasing.perform t call op w o).2 := by
  have quiet {v : World} (hv : v = w) : LeaseInv v ∧ RowsKept w v := by
    subst hv
    exact ⟨h, .refl v⟩
  have used {g : GuardHandle} (hop : Uses g op) :
      LeaseInv (leasing.perform t call op w o).2 ∧ RowsKept w (leasing.perform t call op w o).2 := by
    rcases leasing.perform_state t call op w o with hw' | hw' <;> rw [hw']
    · exact quiet rfl
    · exact h.uses hop t
  cases φ with
  | acquiring =>
    rcases hp with ⟨r, rfl⟩ | rfl | ⟨fields, now, rfl⟩
    · have hq := quiet (v := (leasing.perform t call (.findRun r .acquireBranchExecution) w o).2)
        (by cases o <;> rfl)
      exact ⟨hq.1, hown, hq.2⟩
    · have hq := quiet (v := (leasing.perform t call .now w o).2) (by cases o <;> rfl)
      exact ⟨hq.1, hown, hq.2⟩
    · have hu := h.upsertLease fields now
      cases o with
      | refused e => exact ⟨h, hown, .refl w⟩
      | unacknowledged e => exact ⟨hu.1, hown, hu.2⟩
      | done =>
        refine ⟨hu.1, ?_, hu.2⟩
        have hb := (h.table.upsertLease fields now).2
        show LeasePhase.Own call (w.upsertLease fields now).2
          (LeasePhase.next .acquiring (.upsertLease fields now) (w.upsertLease fields now).1)
        cases hr : (w.upsertLease fields now).1 with
        | ok l => exact ⟨hown, hb l hr⟩
        | error e => exact hown
  | leased leaseId branchId =>
    obtain ⟨runId, ttlMs, rfl⟩ := hp
    have hg := h.newGuard t runId ttlMs hown.2
    cases o with
    | refused e => exact ⟨h, hown.1, .refl w⟩
    | unacknowledged e => exact ⟨hg.1, hown.1, hg.2⟩
    | done => exact ⟨hg.1, hown.1, hg.2⟩
  | acquired => cases hp
  | lostSeen g => cases hp
  | unrenewed g =>
    subst hp
    have hu := used (.setLost true)
    exact ⟨hu.1, hown, hu.2⟩
  | running g =>
    have hu := used hp
    refine ⟨hu.1, ?_, hu.2⟩
    cases hp with
    | renew now =>
      generalize (leasing.perform t call (.renewLease g.leaseId g.runId now g.ttlMs) w o).1 = r
      cases r with
      | error e => exact hown
      | ok modifiedCount =>
        show LeasePhase.Own call _ (ite _ _ _)
        split_ifs <;> exact hown
    | _ => exact hown
  | asserting g =>
    have hu := used hp
    refine ⟨hu.1, ?_, hu.2⟩
    cases hp with
    | readLost =>
      generalize (leasing.perform t call (.guardLost g.guardId) w o).1 = r
      cases r with
      | error e => exact hown
      | ok lost => cases lost <;> exact hown
    | _ => exact hown
  | checking g =>
    have hu := used hp
    exact ⟨hu.1, by cases hp <;> exact hown, hu.2⟩

/-- Whatever the environment does: time passes, expired rows go, runs change. -/
theorem LeaseInv.act {w w' : World} (h : LeaseInv w) {a : LeaseAct} (ha : a.apply w = some w') :
    LeaseInv w' ∧ RowsKept w w' := by
  have hsub : (∀ l ∈ w'.leases, l ∈ w.leases) ∧ w'.guards = w.guards ∧ w'.nextId = w.nextId := by
    cases a with
    | elapse ms =>
      cases Option.some.inj ha
      exact ⟨fun l hl => hl, rfl, rfl⟩
    | expire leaseId =>
      simp only [LeaseAct.apply] at ha
      split_ifs at ha
      cases Option.some.inj ha
      exact ⟨fun l hl => List.mem_of_mem_filter hl, rfl, rfl⟩
    | writeRuns runs =>
      cases Option.some.inj ha
      exact ⟨fun l hl => hl, rfl, rfl⟩
  obtain ⟨htable, hkept⟩ := h.table.subset hsub.1 (Nat.le_of_eq hsub.2.2.symm)
  exact ⟨⟨htable, fun x hx => (h.guards x (hsub.2.1 ▸ hx)).kept hkept⟩, hkept⟩

def leaseDiscipline : Discipline leaseConformance where
  ok _ _ := True
  shared _ w := LeaseInv w
  own _ call φ w := φ.Own call w
  moves _ w w' := RowsKept w w'
  spawn n call w h _ := by
    refine ⟨h, ?_, .refl w⟩
    cases call <;> simp [leaseConformance, LeaseCall.start, LeasePhase.Own, LeaseCall.guard?]
  advance c t o call op next φ ht _ ha h hown hp := lease_step h hown hp
  crash _ c t call p φ ht _ h hown := ⟨h, hown, .refl _⟩
  act c a w' _ ha h := h.act ha
  stable n m w w' u call φ _ _ hm _ _ hown := hown.kept hm

/-- At each instant the store check can succeed only for guards of one run on a branch. -/
def HeldByOneRun (w : World) : Prop :=
  ∀ x ∈ w.guards, ∀ y ∈ w.guards, x.branchId = y.branchId → ∀ now now',
    w.leaseHeld x.leaseId x.runId now = true → w.leaseHeld y.leaseId y.runId now' = true →
      x.runId = y.runId

theorem LeaseInv.heldByOneRun {w : World} (h : LeaseInv w) : HeldByOneRun w := by
  intro x hx y hy hb now now' hxh hyh
  simp only [World.leaseHeld, List.any_eq_true, Bool.and_eq_true, beq_iff_eq] at hxh hyh
  obtain ⟨l, hl, ⟨hlid, hlr⟩, -⟩ := hxh
  obtain ⟨l', hl', ⟨hlid', hlr'⟩, -⟩ := hyh
  have hbranch : l.branchId = l'.branchId :=
    ((h.guards x hx).2 l hl hlid).trans (hb.trans ((h.guards y hy).2 l' hl' hlid').symm)
  rw [← hlr, ← hlr', h.table.oneRow l hl l' hl' (.inl hbranch)]

def GuardLost (w : World) (g : ObjectId) : Prop := (w.guard? g).any (·.lost) = true

instance (w : World) (g : ObjectId) : Decidable (GuardLost w g) :=
  inferInstanceAs (Decidable (_ = true))

/-- `lost = false` is never written over `lost = true`. -/
def LostStays (c : Leasing) : Label api LeaseCall LeaseAct → Prop
  | .advance t _ => ∀ g ∈ (c.pending t).bind Op.clearsLost?, ¬ GuardLost c.state g
  | _ => True

instance (c : Leasing) : (l : Label api LeaseCall LeaseAct) → Decidable (LostStays c l)
  | .advance _ _ => inferInstanceAs (Decidable (∀ g ∈ Option.bind _ _, _))
  | .spawn _ | .crash _ | .act _ => isTrue trivial

theorem GuardLost.modifyGuard {w : World} {g i : ObjectId}
    {f : ExecutionGuard → ExecutionGuard} (h : GuardLost w g) (hf : ∀ x, (f x)._id = x._id)
    (hl : i = g → ∀ x, x.lost = true → (f x).lost = true) : GuardLost (w.modifyGuard i f) g := by
  obtain ⟨x, hx, hlost⟩ := (Option.any_eq_true _ _).mp h
  rw [GuardLost, World.guard?_modifyGuard w i g hf, hx]
  split_ifs with hi
  · exact hl hi.symm x hlost
  · exact hlost

theorem GuardLost.uses {w : World} {g : ObjectId} (h : GuardLost w g) {g' : GuardHandle} {op : Op}
    (hop : Uses g' op) (hc : g ∉ op.clearsLost?) (t : ThreadId) :
    GuardLost (World.exec t none op w).2 g := by
  cases hop with
  | setLost lost =>
    refine h.modifyGuard (fun x => rfl) fun hi x _ => ?_
    cases lost with
    | true => rfl
    | false => exact absurd (Op.mem_clearsLost?.mpr (by rw [hi])) hc
  | abort => exact h.modifyGuard (fun x => rfl) fun _ x hx => hx
  | endRenewal => exact h.modifyGuard (fun x => rfl) fun _ x hx => hx
  | clearHeartbeat => exact h.modifyGuard (fun x => rfl) fun _ x hx => hx
  | closeMonitor => exact h.modifyGuard (fun x => rfl) fun _ x hx => hx
  | beginRenewal =>
    simp only [World.exec]
    split_ifs
    · exact h.modifyGuard (fun x => rfl) fun _ x hx => hx
    · exact h
  | renew now =>
    rcases World.renewLease_cases w g'.leaseId g'.runId now g'.ttlMs with ⟨l, -, -, hw⟩ | hw <;>
      simp only [World.exec, World.answer, hw] <;> exact h
  | _ => exact h

theorem GuardLost.permitted {w : World} {g : ObjectId} (h : GuardLost w g) {φ : LeasePhase}
    {op : Op} (hp : φ.permits op) (hc : g ∉ op.clearsLost?) (t : ThreadId) :
    GuardLost (World.exec t none op w).2 g := by
  cases φ with
  | acquiring =>
    rcases hp with ⟨r, rfl⟩ | rfl | ⟨fields, now, rfl⟩
    · exact h
    · exact h
    · rcases World.upsertLease_cases w fields now with ⟨l, -, -, -, hw⟩ | hw | ⟨-, hw⟩ <;>
        simp only [World.exec, hw] <;> exact h
  | leased leaseId branchId =>
    obtain ⟨runId, ttlMs, rfl⟩ := hp
    obtain ⟨x, hx, hlost⟩ := (Option.any_eq_true _ _).mp h
    have hfind : findById w.guards g = some x := hx
    simp [GuardLost, World.guard?, World.exec, findById_append, hfind, hlost]
  | acquired => cases hp
  | lostSeen i => cases hp
  | unrenewed i => exact h.uses (hp ▸ .setLost true : Uses i _) hc t
  | running i | asserting i | checking i => exact h.uses hp hc t

/-- While `lost` stays set, an `assertHeld` that starts from now on reads it as set. -/
def lostDiscipline (g : GuardHandle) (started : ℕ) : Discipline leaseConformance where
  ok := LostStays
  shared _ w := GuardLost w g.guardId
  own t call φ _ :=
    started ≤ t → call = .assertHeld g → φ = .asserting g ∨ φ = .lostSeen g
  moves _ _ _ := True
  spawn n call w h _ := ⟨h, fun _ hcall => hcall ▸ .inl rfl, trivial⟩
  advance c t o call op next φ ht hok ha h hown hp := by
    have hclear : g.guardId ∉ op.clearsLost? := fun hmem =>
      hok g.guardId (by simpa [Config.pending, ht, Prog.pending] using hmem) h
    have hstay := h.permitted hp hclear t
    refine ⟨?_, fun hlate hcall => ?_, trivial⟩
    · rcases leasing.perform_state t call op c.state o with hw | hw <;> rw [hw]
      · exact h
      · exact hstay
    · rcases hown hlate hcall with rfl | rfl
      · cases hp with
        | readLost =>
          have hread : (leasing.perform t call (.guardLost g.guardId) c.state o).1 = .ok true := by
            cases o with
            | done => exact congrArg _ h
            | refused e => cases ha
            | unacknowledged e => cases ha
          rw [hread]
          exact .inr rfl
        | _ => exact .inl rfl
      · cases hp
  crash _ c t call p φ ht _ h hown := ⟨h, hown, trivial⟩
  act c a w' _ ha h := by
    cases a with
    | elapse ms =>
      cases Option.some.inj ha
      exact ⟨h, trivial⟩
    | expire leaseId =>
      simp only [leasing, LeaseAct.apply] at ha
      split_ifs at ha
      cases Option.some.inj ha
      exact ⟨h, trivial⟩
    | writeRuns runs =>
      cases Option.some.inj ha
      exact ⟨h, trivial⟩
  stable n m w w' u call φ _ _ _ _ _ hown := hown

/-- What leases promise in a state `c` that follows `c₀`. -/
structure LeaseSafe (c₀ c : Leasing) : Prop where
  oneHolder : HeldByOneRun c.state
  /-- A call of a guard never modifies or deletes a lease of another run. -/
  others : ∀ (t : ThreadId) th g o c', c.threads[t]? = some th → th.entry.guard? = some g →
    leasing.step c (.advance t o) = some c' →
      ∀ l ∈ c.state.leases, l.runId ≠ g.runId → l ∈ c'.state.leases
  /-- A heartbeat whose renewal is refused or fails goes on to mark its guard lost. -/
  marks : ∀ (t : ThreadId) th g now o c', c.threads[t]? = some th → th.entry = .heartbeat g →
    c.pending t = some (.renewLease g.leaseId g.runId now g.ttlMs) →
    leasing.step c (.advance t o) = some c' →
    ¬ (o = .done ∧ (c.state.renewLease g.leaseId g.runId now g.ttlMs).1 = 1) →
      c'.pending t = some (.setGuardLost g.guardId true)
  /-- An `assertHeld` started after the guard was marked lost does not return. -/
  lost : ∀ (t : ThreadId) th g, GuardLost c₀.state g.guardId → c₀.threads.length ≤ t →
    c.threads[t]? = some th → th.entry = .assertHeld g → th.crashed = false →
      ∀ r, th.prog ≠ .pure r

private theorem others_of_holds {c c' : Leasing} (hc : leaseDiscipline.Holds c) {t : ThreadId}
    {th g o} (ht : c.threads[t]? = some th) (hg : th.entry.guard? = some g)
    (hstep : leasing.step c (.advance t o) = some c') :
    ∀ l ∈ c.state.leases, l.runId ≠ g.runId → l ∈ c'.state.leases := by
  obtain ⟨call, op, next, ht', ha, rfl⟩ := Machine.step_advance hstep
  cases Option.some.inj (ht.symm.trans ht')
  obtain ⟨φ, hown, hp, -⟩ := hc.advancing ht
  have huses : Uses g op := by
    cases φ with
    | acquiring => cases hg.symm.trans hown
    | leased leaseId branchId => cases hg.symm.trans hown.1
    | acquired => cases hp
    | lostSeen i => cases hp
    | unrenewed i =>
      rcases hown with rfl | rfl | rfl <;> cases hg <;> exact hp ▸ .setLost true
    | running i => rcases hown with rfl | rfl | rfl <;> cases hg <;> exact hp
    | asserting i | checking i =>
      cases hown
      cases hg
      exact hp
  intro l hl hr
  rcases leasing.perform_state t call op c.state o with hw | hw <;> rw [hw]
  · exact hl
  · exact hc.1.table.others huses t l hl hr

private theorem pending_of_unrenewed {p : Promise (Option GuardHandle)} {g : GuardHandle}
    (h : leaseProtocol.Tracks p (.unrenewed g) (LeaseCall.heartbeat g).returns
      (LeaseCall.heartbeat g).throws) : p.pending = some (.setGuardLost g.guardId true) := by
  cases p with
  | pure r => cases h
  | throw e => cases h
  | await op next => exact congrArg some h.1

private theorem marks_of_holds {c c' : Leasing} (hc : leaseDiscipline.Holds c) {t : ThreadId}
    {th g now o} (ht : c.threads[t]? = some th) (hg : th.entry = .heartbeat g)
    (hpend : c.pending t = some (.renewLease g.leaseId g.runId now g.ttlMs))
    (hstep : leasing.step c (.advance t o) = some c')
    (hno : ¬ (o = .done ∧ (c.state.renewLease g.leaseId g.runId now g.ttlMs).1 = 1)) :
    c'.pending t = some (.setGuardLost g.guardId true) := by
  obtain ⟨call, op, next, ht', ha, rfl⟩ := Machine.step_advance hstep
  cases Option.some.inj (ht.symm.trans ht')
  obtain ⟨φ, hown, hp, htr⟩ := hc.advancing ht
  have hop : op = .renewLease g.leaseId g.runId now g.ttlMs := by
    simpa [Config.pending, ht, Prog.pending] using hpend
  subst hop
  cases hg
  have hφ : φ = .running g := by
    cases φ with
    | running i => rcases hown with h | h | h <;> cases h; rfl
    | unrenewed i => cases hp
    | acquiring => cases hown
    | leased leaseId branchId => cases hown.1
    | acquired => cases hown
    | asserting i | lostSeen i | checking i => cases hown
  subst hφ
  have hnext := htr _ (leaseConformance.possible _ _
    (leasing.answers_perform ha t (.heartbeat g) c.state))
  have hrefused : leaseProtocol.next (.running g) (.renewLease g.leaseId g.runId now g.ttlMs)
      (leasing.perform t (.heartbeat g) _ c.state o).1 = .unrenewed g := by
    cases o with
    | done => exact if_neg fun h => hno ⟨rfl, h⟩
    | refused e => rfl
    | unacknowledged e => rfl
  rw [hrefused] at hnext
  have hlt : t < c.threads.length := (List.getElem?_eq_some_iff.mp ht).1
  simp [Config.pending, hlt, pending_of_unrenewed hnext]

theorem lease_safety {w : World} {c₀ c : Leasing} {ls ms} (hleases : w.leases = [])
    (hguards : w.guards = []) (hc₀ : leasing.play (.initial w) ls = some c₀)
    (hc : leasing.play c₀ ms = some c) (hms : leasing.Along LostStays c₀ ms) :
    LeaseSafe c₀ c := by
  have hstart : LeaseInv w :=
    ⟨⟨by simp [hleases], by simp [hleases]⟩, by simp [hguards]⟩
  have h₀ : leaseDiscipline.Holds c₀ :=
    Discipline.holds_play (Discipline.holds_initial hstart) (Machine.along_true _ _) hc₀
  have h : leaseDiscipline.Holds c := Discipline.holds_play h₀ (Machine.along_true _ _) hc
  refine ⟨h.1.heldByOneRun, fun t th g o c' ht hg hs => others_of_holds h ht hg hs,
    fun t th g now o c' ht hg hp hs hno => marks_of_holds h ht hg hp hs hno,
    fun t th g hlost hlate ht hentry halive r hr => ?_⟩
  have hlate₀ : (lostDiscipline g c₀.threads.length).Holds c₀ := by
    refine ⟨hlost, fun u th hu => ?_⟩
    obtain ⟨φ, -, htr, hdead⟩ := h₀.2 u th hu
    exact ⟨φ, fun hle => absurd (List.getElem?_eq_some_iff.mp hu).1 (Nat.not_lt.mpr hle), htr,
      hdead⟩
  obtain ⟨φ, hown, htr, -⟩ := (Discipline.holds_play hlate₀ hms hc).2 t th ht
  have hret := htr halive
  rw [hr, hentry] at hret
  rcases hown hlate hentry with rfl | rfl <;> cases hret

private def heldRun : AgentRun where
  _id := 1
  userId := 2
  workspaceId := some 3
  projectId := 4
  branchId := some 5
  chatId := none
  prompt := "Build a counter"
  status := .running
  mode := .create
  baseSnapshotId := none
  baseSnapshotRevision := 0
  baseHeadVersion := some 0
  resultSnapshotId := none
  retryOfRunId := none
  validationCandidateId := none
  retryable := false
  attempt := 0
  maxRepairAttempts := 2
  error := none
  usage := none
  startedAt := none
  completedAt := none

private def heldWorld : World := { World.empty with runs := [heldRun], nextId := 10 }

private def heldGuard : GuardHandle := ⟨11, 10, 1, 5, 60000⟩

/-- The run acquires the lease, an `assertHeld` gets as far as its store check, and then a
renewal fails. -/
private def failedRenewal : List (Label api LeaseCall LeaseAct) :=
  [.spawn (.acquire 1 60000), .advance 0 .done, .advance 0 .done, .advance 0 .done,
    .advance 0 .done, .spawn (.assertHeld heldGuard), .advance 1 .done, .advance 1 .done,
    .advance 1 .done, .advance 1 .done, .spawn (.heartbeat heldGuard), .advance 2 .done,
    .advance 2 .done, .advance 2 (.refused { code := .storage, message := "timeout" }),
    .advance 2 .done, .advance 2 .done]

private def lateAssertHeld : List (Label api LeaseCall LeaseAct) :=
  [.spawn (.assertHeld heldGuard), .advance 3 .done, .advance 3 .done]

theorem lease_safety_after_failed_renewal : ∃ c₀ c,
    leasing.play (.initial heldWorld) failedRenewal = some c₀ ∧
    leasing.play c₀ lateAssertHeld = some c ∧ GuardLost c₀.state 11 ∧ LeaseSafe c₀ c := by
  obtain ⟨c₀, hc₀, hlost, hstays⟩ : ∃ c₀,
      leasing.play (.initial heldWorld) failedRenewal = some c₀ ∧ GuardLost c₀.state 11 ∧
        leasing.Along LostStays c₀ lateAssertHeld := ⟨_, rfl, by decide, by decide⟩
  obtain ⟨c, hc⟩ : ∃ c, leasing.play (.initial heldWorld) (failedRenewal ++ lateAssertHeld) =
      some c := ⟨_, rfl⟩
  rw [Machine.play_append, hc₀] at hc
  exact ⟨c₀, c, hc₀, hc, hlost, lease_safety (w := heldWorld) rfl rfl hc₀ hc hstays⟩

/-- The pending store check ends with `lost = false` after the failed renewal has set it, and the
next `assertHeld` returns. -/
theorem assertHeld_forgets_lost : ¬ ∀ (w : World) (ls ms) (c₀ c : Leasing), w.leases = [] →
    w.guards = [] → leasing.play (.initial w) ls = some c₀ → leasing.play c₀ ms = some c →
      LeaseSafe c₀ c := by
  intro h
  have hs := h heldWorld failedRenewal ([.advance 1 .done] ++ lateAssertHeld ++
    [.advance 3 .done, .advance 3 .done, .advance 3 .done, .advance 3 .done]) _ _ rfl rfl rfl rfl
  exact hs.lost 3 _ heldGuard rfl (Nat.le_refl _) rfl rfl rfl none rfl

end AppBuilder.Branches
