import AppBuilder.Sandbox.Confinement
import AppBuilder.Sandbox.Terminability
import Mathlib.Algebra.Order.BigOperators.Group.List

/-! Passes of the reconciler, one after another and without other actors. The calls of the
providers succeed, and a resource that was destroyed is missing from then on. -/
namespace AppBuilder.Sandbox
open Agent Async

variable {options : SandboxServiceOptions} {directory : Directory} {key : SandboxRef → String}

section Providers

/-- What the providers answer once they have destroyed `ref`. -/
def Providers.without (providers : Providers key) (ref : SandboxRef) : Providers key :=
  { providers with
    inspect := fun r => if r = ref then .ok ⟨ref, .missing, key ref, 0, []⟩ else providers.inspect r
    destroy := fun r => if r = ref then .ok ⟨true, true, false⟩ else providers.destroy r
    list := fun kind filter => (providers.list kind filter).filter fun r => r != ref
    list_key := fun kind filter r hr =>
      providers.list_key kind filter r (List.mem_filter.mp hr).1 }

/-- The calls that destroy and inspect resources succeed. -/
structure Obliging (providers : Providers key) : Prop where
  destroys : ∀ ref, ∃ receipt, providers.destroy ref = .ok receipt ∧ receipt.pending = false
  inspects : ∀ ref, ∃ inspection, providers.inspect ref = .ok inspection

theorem Obliging.without {providers : Providers key} (h : Obliging providers) (ref : SandboxRef) :
    Obliging (providers.without ref) where
  destroys r := by
    by_cases hr : r = ref
    · exact ⟨_, if_pos hr, rfl⟩
    · obtain ⟨receipt, hd, hp⟩ := h.destroys r
      exact ⟨receipt, (if_neg hr).trans hd, hp⟩
  inspects r := by
    by_cases hr : r = ref
    · exact ⟨_, if_pos hr⟩
    · obtain ⟨inspection, hi⟩ := h.inspects r
      exact ⟨inspection, (if_neg hr).trans hi⟩

end Providers

namespace SandboxWorld

variable {w w' : SandboxWorld key}

/-- The provider reports that the resource is missing. -/
def Gone (w : SandboxWorld key) (ref : SandboxRef) : Prop :=
  ∃ inspection, w.providers.inspect ref = .ok inspection ∧ inspection.status = .missing

/-- The world after an operation of the providers. -/
def settle (w : SandboxWorld key) : SandboxOp → SandboxWorld key
  | .destroy ref => { w with providers := w.providers.without ref }
  | _ => w

def execSettled (directory : Directory) (op : SandboxOp) (w : SandboxWorld key) :
    sandboxApi.Answer op × SandboxWorld key :=
  ((w.exec directory 0 op).1, (w.exec directory 0 op).2.settle op)

theorem settle_eq (w : SandboxWorld key) (op : SandboxOp) :
    w.settle op = { w with providers := (w.settle op).providers } := by cases op <;> rfl

theorem settle_gone (op : SandboxOp) {ref : SandboxRef} (h : w.Gone ref) : (w.settle op).Gone ref := by
  obtain ⟨inspection, hi, hm⟩ := h
  cases op with
  | destroy r =>
    by_cases hr : ref = r
    · exact ⟨_, if_pos hr, rfl⟩
    · exact ⟨inspection, (if_neg hr).trans hi, hm⟩
  | _ => exact ⟨inspection, hi, hm⟩

theorem settle_obliging (op : SandboxOp) (h : Obliging w.providers) :
    Obliging (w.settle op).providers := by
  cases op with
  | destroy ref => exact h.without ref
  | _ => exact h

end SandboxWorld

section Rank

/-- How many transitions a lease may still have before it. -/
def SandboxLeaseState.rank : SandboxLeaseState → ℕ
  | .reserved => 6
  | .provisioning => 5
  | .ready => 4
  | .running => 3
  | .failed | .lost => 2
  | .terminating => 1
  | .terminated => 0

theorem SandboxLeaseState.rank_lt_of_allowed {a b : SandboxLeaseState}
    (h : b ∈ SANDBOX_ALLOWED_TRANSITIONS a) : b.rank < a.rank := by
  revert h
  cases a <;> cases b <;> decide

theorem SandboxLeaseState.Reaches.eq_or_rank_lt {a b : SandboxLeaseState} (h : a.Reaches b) :
    b = a ∨ b.rank < a.rank := by
  induction h with
  | refl => exact .inl rfl
  | tail _ step ih =>
    have hlt := rank_lt_of_allowed step
    rcases ih with rfl | hrank
    · exact .inr hlt
    · exact .inr (hlt.trans hrank)

def totalRank (leases : List SandboxLease) : ℕ := (leases.map fun lease => lease.state.rank).sum

theorem totalRank_cons (lease : SandboxLease) (leases : List SandboxLease) :
    totalRank (lease :: leases) = lease.state.rank + totalRank leases := List.sum_cons

variable {as bs : List SandboxLease}

theorem totalRank_le (h : List.Forall₂ SandboxLease.Evolves as bs) :
    totalRank bs ≤ totalRank as := by
  induction h with
  | nil => exact le_rfl
  | cons hab _ ih =>
    rw [totalRank_cons, totalRank_cons]
    rcases hab.state.eq_or_rank_lt with hs | hlt
    · rw [hs]
      omega
    · omega

/-- Leases whose total rank has not changed are in the states they were in. -/
theorem states_of_totalRank (h : List.Forall₂ SandboxLease.Evolves as bs)
    (he : totalRank as ≤ totalRank bs) :
    List.Forall₂ (fun a b => b._id = a._id ∧ a.Evolves b ∧ b.state = a.state) as bs := by
  induction h with
  | nil => exact .nil
  | @cons a b as bs hab htail ih =>
    have hle := totalRank_le htail
    rw [totalRank_cons, totalRank_cons] at he
    rcases hab.state.eq_or_rank_lt with hs | hlt
    · exact .cons ⟨hab.id, hab, hs⟩ (ih (by rw [hs] at he; omega))
    · omega

/-- The counterpart of a lease in a list with the same identifiers. -/
theorem find_of_forall₂ {r : SandboxLease → SandboxLease → Prop}
    (hid : ∀ a b, r a b → b._id = a._id) (h : List.Forall₂ r as bs) {leaseId : ObjectId}
    {a : SandboxLease} (ha : Store.findById as leaseId = some a) :
    ∃ b, Store.findById bs leaseId = some b ∧ r a b := by
  induction h with
  | nil => cases ha
  | @cons x y as bs hxy _ ih =>
    rw [Store.findById, List.find?_cons] at ha ⊢
    have hy : Store.docId y = Store.docId x := hid x y hxy
    rw [hy]
    cases hx : Store.docId x == leaseId with
    | true =>
      rw [hx] at ha
      cases ha
      exact ⟨y, rfl, hxy⟩
    | false =>
      rw [hx] at ha
      exact ih ha

theorem forall₂_trans {r : SandboxLease → SandboxLease → Prop} (htrans : ∀ a b c, r a b → r b c → r a c)
    {cs : List SandboxLease} (h : List.Forall₂ r as bs) (h' : List.Forall₂ r bs cs) :
    List.Forall₂ r as cs := by
  induction h generalizing cs with
  | nil => exact h'
  | cons hab _ ih =>
    cases h' with
    | cons hbc htail => exact .cons (htrans _ _ _ hab hbc) (ih htail)

end Rank

namespace SandboxWorld

variable {w w' : SandboxWorld key}

/-- The same leases in the same order, each as far as before or further. -/
def Aligned (w w' : SandboxWorld key) : Prop :=
  List.Forall₂ SandboxLease.Evolves w.leases w'.leases

theorem Aligned.refl (w : SandboxWorld key) : w.Aligned w :=
  List.forall₂_same.mpr fun lease _ => .refl lease

theorem Aligned.trans {w'' : SandboxWorld key} (h : w.Aligned w') (h' : w'.Aligned w'') :
    w.Aligned w'' := forall₂_trans (r := SandboxLease.Evolves) (fun _ _ _ => .trans) h h'

theorem Aligned.lease? (h : w.Aligned w') {leaseId : ObjectId} {lease : SandboxLease}
    (hl : w.lease? leaseId = some lease) :
    ∃ later, w'.lease? leaseId = some later ∧ lease.Evolves later :=
  find_of_forall₂ (fun _ _ hab => hab.id) h hl

/-- What may have become of the world after a program that writes the leases `mine`. -/
structure Passed (mine : ObjectId → Prop) (w w' : SandboxWorld key) : Prop where
  wellFormed : w'.WellFormed
  aligned : w.Aligned w'
  frame : ∀ leaseId, ¬ mine leaseId → w'.lease? leaseId = w.lease? leaseId
  gone : ∀ ref, w.Gone ref → w'.Gone ref
  obliging : Obliging w.providers → Obliging w'.providers
  clock : w'.clock = w.clock

theorem Passed.refl (mine : ObjectId → Prop) (hw : w.WellFormed) : Passed mine w w :=
  ⟨hw, .refl w, fun _ _ => rfl, fun _ h => h, fun h => h, rfl⟩

theorem Passed.trans {mine : ObjectId → Prop} {w'' : SandboxWorld key} (h : Passed mine w w')
    (h' : Passed mine w' w'') : Passed mine w w'' :=
  ⟨h'.wellFormed, h.aligned.trans h'.aligned,
    fun leaseId hm => (h'.frame leaseId hm).trans (h.frame leaseId hm),
    fun ref hg => h'.gone ref (h.gone ref hg), fun ho => h'.obliging (h.obliging ho),
    h'.clock.trans h.clock⟩

theorem Passed.mono {mine mine' : ObjectId → Prop} (h : Passed mine w w')
    (hm : ∀ leaseId, mine leaseId → mine' leaseId) : Passed mine' w w' :=
  ⟨h.wellFormed, h.aligned, fun leaseId hn => h.frame leaseId fun hmine => hn (hm leaseId hmine),
    h.gone, h.obliging, h.clock⟩

variable (directory)

theorem exec_providers (t : ThreadId) (op : SandboxOp) (w : SandboxWorld key) :
    (w.exec directory t op).2.providers = w.providers := by
  cases op with
  | transition | bindExternalId | clearExternalId | claimProvisioning | heartbeatRunning
  | claimStaleRunning =>
    simp only [exec]
    rw [updateLease_eq]
  | createLease record =>
    simp only [exec, createLease]
    split_ifs <;> rfl
  | lock workspaceId =>
    simp only [exec]
    split_ifs <;> rfl
  | assertHeld workspaceId =>
    simp only [exec]
    split_ifs <;> rfl
  | inspect ref =>
    simp only [exec]
    split <;> rfl
  | destroy ref =>
    simp only [exec]
    split <;> rfl
  | beginHeartbeat commandId =>
    simp only [exec]
    split_ifs <;> rfl
  | _ => rfl

/-- A replaced lease keeps its place. -/
theorem Replaces.aligned {lease updated : SandboxLease} (h : w.Replaces w' lease updated)
    (hw : w.WellFormed) (hevolves : lease.Evolves updated) : w.Aligned w' := by
  rw [Aligned, h.leases, Store.modifyById, List.forall₂_map_right_iff]
  refine List.forall₂_same.mpr fun other ho => ?_
  split_ifs with he
  · have hother := hw.lease?_of_mem ho
    have hid : other._id = lease._id := by simpa [Store.docId] using he
    rw [hid, h.stored] at hother
    cases hother
    exact hevolves
  · exact .refl other

/-- The leases after an operation that creates none. -/
theorem exec_aligned {mine : ObjectId → Prop} {op : SandboxOp} (t : ThreadId) (hw : w.WellFormed)
    (hop : op.Allowed) (hmine : op.Within mine) :
    w.Aligned (w.exec directory t op).2 ∧ ∀ leaseId, ¬ mine leaseId →
      (w.exec directory t op).2.lease? leaseId = w.lease? leaseId := by
  cases exec_effect directory t op w with
  | unchanged leases nextId =>
    refine ⟨?_, fun leaseId _ => ?_⟩
    · rw [Aligned, leases]
      exact List.forall₂_same.mpr fun lease _ => .refl lease
    · rw [SandboxWorld.lease?, leases]
      rfl
  | created record hcreate => exact absurd hcreate (hmine.1 record)
  | replaced u hu lease leaseId accepted replaces =>
    have hchange := SandboxOp.update_change hu hop accepted w.clock
    refine ⟨replaces.aligned hw hchange.evolves, fun id hid => ?_⟩
    rw [replaces.lease?_eq hchange.id, if_neg]
    rintro rfl
    exact hid (leaseId ▸ hmine.2 u hu)

theorem WellFormed.settle (hw : w.WellFormed) (op : SandboxOp) : (w.settle op).WellFormed := by
  rw [settle_eq]
  exact ⟨hw.fresh, hw.ids, hw.apart, hw.binds⟩

theorem Recalls.settle {t : ThreadId} {h : SandboxHistory} (hr : w.Recalls t h) (op : SandboxOp) :
    (w.settle op).Recalls t h := by
  rw [settle_eq]
  exact ⟨hr.saw, hr.binds, hr.clock, hr.wrote, hr.told⟩

/-- One operation that keeps to the conduct. -/
theorem passed_exec {mine : ObjectId → Prop} {h : SandboxHistory} {op : SandboxOp}
    (hw : w.WellFormed) (hr : w.Recalls 0 h) (hc : Conduct options directory key h op)
    (hmine : op.Within mine) :
    Passed mine w (w.execSettled directory op).2 ∧
      (w.execSettled directory op).2.Recalls 0
        (⟨op, (w.execSettled directory op).1⟩ :: h) := by
  have hallowed := Conduct.allowed hc
  have hw' := exec_wellFormed directory 0 hallowed (Conduct.binds hc hr) hw
  have hr' := hr.done directory (exec_moves directory 0 hallowed w) hw'
  have hclock := (exec_history directory 0 op w).1
  have hproviders := exec_providers directory 0 op w
  obtain ⟨haligned, hframe⟩ := exec_aligned directory 0 hw hallowed hmine
  have hleases : (w.execSettled directory op).2.leases = (w.exec directory 0 op).2.leases := by
    rw [execSettled, settle_eq]
  refine ⟨⟨hw'.settle op, ?_, fun leaseId hn => ?_, fun ref hg => ?_, fun ho => ?_, ?_⟩,
    hr'.settle op⟩
  · rw [Aligned, hleases]
    exact haligned
  · rw [SandboxWorld.lease?, hleases]
    exact hframe leaseId hn
  · refine settle_gone op ?_
    rw [Gone, hproviders]
    exact hg
  · refine settle_obliging op ?_
    rw [hproviders]
    exact ho
  · rw [execSettled, settle_eq]
    exact hclock

end SandboxWorld

section Programs

variable {α β : Type} {p : SandboxPromise α} {w w' : SandboxWorld key}

/-- Run a program to its end; what was destroyed is missing. -/
def settled (directory : Directory) (p : SandboxPromise α) (w : SandboxWorld key) :
    Except Failure α × SandboxWorld key :=
  p.evaluate (fun op w => w.execSettled directory op) w

/-- The run lemma of a program that keeps to the conduct and within its leases. -/
theorem passed_of_conducted {mine : ObjectId → Prop} {h : SandboxHistory}
    {Q : α → SandboxHistory → Prop} {R : α → Prop} (hw : w.WellFormed) (hr : w.Recalls 0 h)
    (hc : Conducted options directory key p h Q) (hm : Confined directory key mine p R) :
    SandboxWorld.Passed mine w (settled directory p w).2 := by
  induction p generalizing w h with
  | pure a => exact .refl mine hw
  | throw e => exact .refl mine hw
  | await op next ih =>
    have hstep := SandboxWorld.passed_exec directory hw hr hc.1 hm.1
    have hpossible : Possible directory key op (w.execSettled directory op).1 := .inl ⟨0, w, rfl⟩
    exact hstep.1.trans (ih _ hstep.1.wellFormed hstep.2 (hc.2 _ hpossible) (hm.2 _ hpossible))

theorem passed_of_conducted_nil {mine : ObjectId → Prop} {Q : α → SandboxHistory → Prop}
    {R : α → Prop} (hw : w.WellFormed) (hc : Conducted options directory key p [] Q)
    (hm : Confined directory key mine p R) :
    SandboxWorld.Passed mine w (settled directory p w).2 :=
  passed_of_conducted hw (.nil 0 w) hc hm

theorem settled_bind {f : α → SandboxPromise β} {a : α}
    (h : settled directory p w = (.ok a, w')) :
    settled directory (p.bind f) w = settled directory (f a) w' := Prog.evaluate_bind_ok h f

theorem settled_perform (op : SandboxOp) (w : SandboxWorld key) :
    settled directory (perform op) w = w.execSettled directory op :=
  Prog.evaluate_perform (I := sandboxApi) (fun op w => SandboxWorld.execSettled directory op w) op w

end Programs

section Sparing

variable {α β : Type} {p : SandboxPromise α}

/-- The program destroys no resource. -/
def Sparing {α : Type} : SandboxPromise α → Prop
  | .pure _ | .throw _ => True
  | .await op next => (∀ ref, op ≠ .destroy ref) ∧ ∀ r, Sparing (next r)

theorem Sparing.settled (h : Sparing p) (w : SandboxWorld key) :
    settled directory p w = run directory 0 p w := by
  induction p generalizing w with
  | pure a => rfl
  | throw e => rfl
  | await op next ih =>
    have hquiet : w.execSettled directory op = w.exec directory 0 op := by
      cases op with
      | destroy ref => exact absurd rfl (h.1 ref)
      | _ => rfl
    rw [Sandbox.settled, Prog.evaluate, hquiet]
    exact ih _ (h.2 _) _

theorem Sparing.andThen {f : α → SandboxPromise β} (h : Sparing p) (hf : ∀ a, Sparing (f a)) :
    Sparing (p.bind f) := by
  induction p with
  | pure a => exact hf a
  | throw e => trivial
  | await op next ih => exact ⟨h.1, fun r => ih r (h.2 r)⟩

theorem perform_sparing (op : SandboxOp) (h : ∀ ref, op ≠ .destroy ref) :
    Sparing (perform op) := ⟨h, fun r => by cases r <;> trivial⟩

theorem transition_sparing (leaseId : ObjectId) (source : List SandboxLeaseState)
    (target : SandboxLeaseState) (set : LeasePatch) :
    Sparing (transition leaseId source target set) :=
  iteInduction (motive := Sparing) (fun _ => trivial) fun _ =>
    perform_sparing (.transition leaseId source target set) nofun

theorem requireLease_sparing (leaseId : ObjectId) : Sparing (requireLease leaseId) :=
  (perform_sparing (.findLease _) nofun).andThen fun lease => by cases lease <;> trivial

theorem orRequire_sparing (changed : Option SandboxLease) (leaseId : ObjectId) :
    Sparing (orRequire changed leaseId) := by
  cases changed with
  | some lease => trivial
  | none => exact requireLease_sparing leaseId

theorem enterTerminating_sparing (lease : SandboxLease) : Sparing (enterTerminating lease) := by
  rw [enterTerminating]
  split_ifs
  · exact (transition_sparing ..).andThen fun next => orRequire_sparing next lease._id
  · trivial

theorem terminatedAt_sparing (leaseId : ObjectId) : Sparing (terminatedAt leaseId) :=
  (perform_sparing .now nofun).andThen fun _ => transition_sparing ..

end Sparing

section Turns

variable {w : SandboxWorld key} {lease : SandboxLease}

theorem ownership_owns (lease : SandboxLease) : lease.ownership.Owns lease := by
  refine ⟨rfl, rfl, rfl, ?_, ?_, rfl⟩
  · rw [SandboxLease.ownership]
    cases lease.runId <;> rfl
  · rw [SandboxLease.ownership]
    cases lease.snapshotId <;> rfl

/-- The lease is terminated, and its resource is missing. -/
def SandboxWorld.Finished (w : SandboxWorld key) (lease : SandboxLease) : Prop :=
  lease.state = .terminated ∧ ∀ ref, lease.ref? = some ref → w.Gone ref

/-- The last two steps of a termination. -/
theorem settled_last (hw : w.WellFormed) (hstored : w.lease? lease._id = some lease)
    (hstate : lease.state = .terminating) (hgone : ∀ ref, lease.ref? = some ref → w.Gone ref) :
    ∃ final w', settled directory ((terminatedAt lease._id).bind fun done =>
        orRequire done lease._id) w = (.ok final, w') ∧
      w'.lease? lease._id = some final ∧ w'.Finished final := by
  obtain ⟨final, w', hrun, hfinal, -, href, hstored', hproviders⟩ :=
    run_terminatedAt directory 0 hw hstored hstate
  have hfirst := (@Sparing.settled directory _ _ _ (terminatedAt_sparing lease._id) w).trans hrun
  refine ⟨final, w', settled_bind hfirst, hstored', hfinal, fun ref hr => ?_⟩
  rw [SandboxWorld.Gone, hproviders]
  exact hgone ref (href.symm.trans hr)

/-- The end of a termination, whatever the lease has for a resource. -/
theorem settled_finish (hw : w.WellFormed) (hstored : w.lease? lease._id = some lease)
    (hstate : lease.state = .terminating) (hobliging : Obliging w.providers)
    (hkind : options.kinds.contains lease.provider = true) :
    ∃ final w', settled directory (finishTerminating options lease) w = (.ok final, w') ∧
      w'.lease? lease._id = some final ∧ w'.Finished final := by
  rw [finishTerminating, if_neg (not_not.mpr hstate)]
  cases hbound : lease.ref? with
  | none =>
    refine settled_last hw hstored hstate fun ref hr => ?_
    rw [hbound] at hr
    cases hr
  | some ref =>
    have hrequire : requireProvider options lease.provider = .pure () := if_pos hkind
    obtain ⟨receipt, hdestroy, hpending⟩ := hobliging.destroys ref
    let w₁ : SandboxWorld key := { w with
      reports := (0, ⟨ref, receipt.missing, true⟩) :: w.reports
      providers := w.providers.without ref }
    have hmissing : w₁.providers.inspect ref = .ok ⟨ref, .missing, key ref, 0, []⟩ := if_pos rfl
    let w₂ : SandboxWorld key := { w₁ with reports := (0, ⟨ref, true, false⟩) :: w₁.reports }
    have hfirst : settled directory (perform (.destroy ref)) w = (.ok receipt, w₁) := by
      rw [settled_perform, SandboxWorld.execSettled]
      simp only [SandboxWorld.exec, hdestroy, SandboxWorld.settle]
      rfl
    have hsecond : settled directory (perform (.inspect ref)) w₁ =
        (.ok ⟨ref, .missing, key ref, 0, []⟩, w₂) := by
      rw [settled_perform, SandboxWorld.execSettled]
      simp only [SandboxWorld.exec, hmissing, SandboxWorld.settle]
      rfl
    have hw₂ : w₂.WellFormed := ⟨hw.fresh, hw.ids, hw.apart, hw.binds⟩
    obtain ⟨final, w', hlast, hfinal⟩ := (@settled_last directory) hw₂ hstored hstate
      (w := w₂) fun other hr => by
        cases hbound.symm.trans hr
        exact ⟨_, hmissing, rfl⟩
    refine ⟨final, w', ?_, hfinal⟩
    dsimp only
    rw [hrequire]
    refine (settled_bind (f := confirmGone lease._id ref) hfirst).trans ?_
    rw [confirmGone, hpending]
    exact (settled_bind hsecond).trans hlast

/-- A termination that starts from a stored lease. -/
theorem settled_terminate (hw : w.WellFormed) (hstored : w.lease? lease._id = some lease)
    (hstate : lease.state ≠ .terminated) (hfree : w.BranchFree lease)
    (hobliging : Obliging w.providers) (hkind : options.kinds.contains lease.provider = true)
    {expected : SandboxOwnership} (howns : expected.Owns lease) :
    ∃ final w', settled directory (terminate options lease._id expected) w = (.ok final, w') ∧
      w'.lease? lease._id = some final ∧ w'.Finished final := by
  obtain ⟨next, w₁, henter, hnext, hid, hprovider, -, hw₁, hstored₁, hproviders⟩ :=
    run_enterTerminating directory 0 hw hstored hstate hfree
  rw [← hid] at hstored₁
  obtain ⟨final, w₂, hfinish, hfinal⟩ := (@settled_finish _ directory) hw₁ hstored₁ hnext
    (hproviders ▸ hobliging) (hprovider ▸ hkind)
  rw [hid] at hfinal
  refine ⟨final, w₂, ?_, hfinal⟩
  have hrequire := (@Sparing.settled directory _ _ _ (requireLease_sparing lease._id) w).trans
    (run_requireLease directory 0 hstored)
  have henter' := (@Sparing.settled directory _ _ _ (enterTerminating_sparing lease) w).trans henter
  refine (settled_bind hrequire).trans ?_
  rw [assertOwnership_owns howns]
  refine (congrArg (settled directory · w) (if_neg hstate)).trans ?_
  exact (settled_bind (f := finishTerminating options) henter').trans hfinish

/-- The lease after its turn in a pass. -/
def turn (options : SandboxServiceOptions) (directory : Directory) (w : SandboxWorld key)
    (lease : SandboxLease) : SandboxWorld key :=
  (settled directory (reconcileLease options lease) w).2

def terminateTurn (options : SandboxServiceOptions) (lease : SandboxLease) : SandboxPromise Unit :=
  (terminate options lease._id lease.ownership).bind fun _ => return ()

theorem settled_now {β : Type} (f : Time → SandboxPromise β) (w : SandboxWorld key) :
    settled directory ((perform .now).bind f) w = settled directory (f w.clock) w :=
  settled_bind (settled_perform .now w)

/-- A transition out of the occupying states. -/
theorem settled_moved {source : List SandboxLeaseState} {target : SandboxLeaseState}
    (set : LeasePatch) (hw : w.WellFormed) (hstored : w.lease? lease._id = some lease)
    (hmem : lease.state ∈ source)
    (hallowed : ∀ state ∈ source, target ∈ SANDBOX_ALLOWED_TRANSITIONS state)
    (hvacates : target ∉ OCCUPYING_SANDBOX_STATES) :
    ∃ later w', settled directory (transition lease._id source target set) w =
      (.ok (some later), w') ∧ w'.lease? lease._id = some later ∧ later.state = target := by
  have hadmits : w.admits (lease.moved set target w.clock) = true :=
    (SandboxWorld.admits_moved_iff _ _ _ hw (SandboxWorld.mem_of_lease? hstored)).mpr
      fun _ _ _ _ _ _ _ => hvacates
  have hrun := run_transition directory 0 source target set hstored hmem hallowed
  rw [if_pos hadmits] at hrun
  obtain ⟨-, hstored'⟩ := moved_world hw hstored (hallowed _ hmem) hadmits rfl
  exact ⟨_, _, ((transition_sparing ..).settled w).trans hrun, hstored', rfl⟩

/-- The turn of a reservation that has expired. -/
theorem turn_reserved (hw : w.WellFormed) (hstored : w.lease? lease._id = some lease)
    (hstate : lease.state = .reserved) (hexpired : lease.expiresAt ≤ w.clock) :
    ∃ later, (turn options directory w lease).lease? lease._id = some later ∧
      later.state = .failed := by
  obtain ⟨later, w', hmove, hstored', hlater⟩ := @settled_moved directory _ _ _ [.reserved]
    .failed { error := some reservationExpired } hw hstored
    (by simp [hstate]) (by simp [SANDBOX_ALLOWED_TRANSITIONS]) (by decide)
  have hturn : settled directory (reconcileLease options lease) w = (.ok (), w') :=
    (settled_now _ w).trans ((congrArg (settled directory · w)
      (if_pos ⟨hstate, hexpired⟩)).trans (settled_bind hmove))
  refine ⟨later, ?_, hlater⟩
  rw [turn, hturn]
  exact hstored'

/-- The turn of a lease that is to be terminated. -/
theorem turn_terminates (hdue : lease.expiresAt ≤ w.clock ∧ lease.state ≠ .reserved ∨
      lease.state ∈ [.failed, .lost, .terminating]) (hstate : lease.state ≠ .terminated) :
    settled directory (reconcileLease options lease) w =
      settled directory (terminateTurn options lease) w := by
  have hreserved : lease.state ≠ .reserved := by
    rintro hs
    simp [hs] at hdue
  refine (settled_now _ w).trans (congrArg (settled directory · w) ?_)
  refine (if_neg fun h => hreserved h.1).trans ?_
  by_cases hlisted : lease.expiresAt ≤ w.clock ∧
      lease.state ∈ [.provisioning, .ready, .running, .lost, .failed]
  · exact if_pos hlisted
  refine (if_neg hlisted).trans ?_
  have hleft : lease.state ∈ [.failed, .lost, .terminating] := by
    rcases hdue with ⟨hexpired, -⟩ | hleft
    · have hnot := fun h => hlisted ⟨hexpired, h⟩
      cases hs : lease.state <;> simp_all
    · exact hleft
  have hrunning : lease.state ≠ .running := by
    rintro hs
    simp [hs] at hleft
  refine (if_neg fun h => hrunning h.1).trans ?_
  cases hs : lease.state <;> first | rfl | simp [hs] at hleft

/-- A termination takes a lease of a free branch to its end. -/
theorem terminateTurn_finishes (hw : w.WellFormed) (hstored : w.lease? lease._id = some lease)
    (hstate : lease.state ≠ .terminated) (hfree : w.BranchFree lease)
    (hobliging : Obliging w.providers) (hkind : options.kinds.contains lease.provider = true) :
    ∃ final w', settled directory (terminateTurn options lease) w = (.ok (), w') ∧
      w'.lease? lease._id = some final ∧ w'.Finished final := by
  obtain ⟨final, w', hterminate, hfinal⟩ := (@settled_terminate _ directory) hw hstored
    hstate hfree hobliging hkind (ownership_owns lease)
  exact ⟨final, w', settled_bind hterminate, hfinal⟩

/-- A termination leaves a lease alone whose branch has another active build. -/
theorem terminateTurn_refused (hw : w.WellFormed) (hstored : w.lease? lease._id = some lease)
    (hstate : lease.state ≠ .terminated) (hbusy : ¬ w.BranchFree lease) :
    settled directory (terminateTurn options lease) w = (.error .duplicateKey, w) := by
  have hrequire := (@Sparing.settled directory _ _ _ (requireLease_sparing lease._id) w).trans
    (run_requireLease directory 0 hstored)
  have henter := (@Sparing.settled directory _ _ _ (enterTerminating_sparing lease) w).trans
    (run_enterTerminating_refused directory 0 hw hstored hbusy)
  refine Prog.evaluate_bind_error ?_ _
  refine (settled_bind hrequire).trans ?_
  rw [assertOwnership_owns (ownership_owns lease)]
  refine (congrArg (settled directory · w) (if_neg hstate)).trans ?_
  exact Prog.evaluate_bind_error henter (finishTerminating options)

/-- The lease is running, and its last heartbeat is too old. -/
def SandboxWorld.Stale (w : SandboxWorld key) (options : SandboxServiceOptions)
    (lease : SandboxLease) : Prop :=
  lease.state = .running ∧ lease.lastHeartbeatAt.any fun (heartbeatAt : Time) =>
    (heartbeatAt : ℤ) ≤ (w.clock : ℤ) - options.config.heartbeatTimeoutMs

/-- The condition as a pass computes it. -/
theorem SandboxWorld.stale_iff (w : SandboxWorld key) : w.Stale options lease ↔
    lease.state = .running ∧ lease.lastHeartbeatAt.any fun heartbeatAt =>
      (heartbeatAt : ℤ) ≤ ((w.clock : ℤ) - options.config.heartbeatTimeoutMs : ℤ) := by
  rw [Stale]
  cases lease.lastHeartbeatAt <;> exact Iff.rfl

/-- A pass moves the lease on: it has expired, is on its way to its end, or has a resource and is
found to be stale or without the resource. -/
def SandboxWorld.GivesWay (w : SandboxWorld key) (options : SandboxServiceOptions)
    (lease : SandboxLease) : Prop :=
  lease.expiresAt ≤ w.clock ∨ lease.state ∈ [.failed, .lost, .terminating] ∨
    ∃ ref, lease.ref? = some ref ∧
      (w.Stale options lease ∨ lease.state ∈ [.ready, .running] ∧ w.Gone ref)

/-- The turn of a lease whose heartbeat is too old. -/
theorem turn_stale {ref : SandboxRef} (hw : w.WellFormed)
    (hstored : w.lease? lease._id = some lease) (hlive : ¬ lease.expiresAt ≤ w.clock)
    (hstale : w.Stale options lease) (hbound : lease.ref? = some ref)
    (hobliging : Obliging w.providers) (hkind : options.kinds.contains lease.provider = true) :
    ∃ final, (turn options directory w lease).lease? lease._id = some final ∧
      final.state = .terminated := by
  have hrunning := hstale.1
  have hadmits : w.admits (lease.moved {} .terminating w.clock) = true :=
    SandboxWorld.admits_terminating w.clock hw (SandboxWorld.mem_of_lease? hstored)
      (by simp [hrunning]) fun h => by simp [hrunning] at h
  obtain ⟨hw₁, hstored₁⟩ := moved_world hw hstored
    (by simp [hrunning, SANDBOX_ALLOWED_TRANSITIONS]) hadmits rfl
  obtain ⟨next, hnext⟩ : ∃ next, next = lease.moved {} .terminating w.clock := ⟨_, rfl⟩
  have hid : next._id = lease._id := by rw [hnext]; rfl
  have hstate : next.state = .terminating := by rw [hnext]; rfl
  have howns : lease.ownership.Owns next := by rw [hnext]; exact ownership_owns lease
  have hkind' : options.kinds.contains next.provider = true := by rw [hnext]; exact hkind
  rw [← hnext] at hadmits hw₁ hstored₁
  have hclaim : settled directory (perform (.claimStaleRunning lease._id ref
      ((w.clock : ℤ) - options.config.heartbeatTimeoutMs))) w = (.ok (some next), { w with
        leases := Store.modifyById w.leases lease._id fun _ => next }) := by
    rw [settled_perform, SandboxWorld.execSettled, hnext]
    simp only [SandboxWorld.exec, SandboxWorld.updateLease, hstored, hrunning, hbound, hstale.2,
      beq_self_eq_true, Bool.and_self, if_true, SandboxWorld.settle]
    rw [hnext] at hadmits
    exact congrArg (fun r : _ × _ => (r.1, r.2)) (if_pos hadmits)
  obtain ⟨w₁, hworld⟩ : ∃ w₁ : SandboxWorld key, w₁ = { w with
    leases := Store.modifyById w.leases lease._id fun _ => next } := ⟨_, rfl⟩
  have hobliging₁ : Obliging w₁.providers := by rw [hworld]; exact hobliging
  rw [← hworld] at hw₁ hstored₁ hclaim
  rw [← hid] at hstored₁
  obtain ⟨final, w₂, hterminate, hfinal, hfinished⟩ := (@settled_terminate _ directory)
    hw₁ hstored₁ (by simp [hstate]) (fun h => by simp [hstate] at h) hobliging₁
    hkind' howns
  rw [hid] at hterminate hfinal
  have hturn : settled directory (reconcileLease options lease) w = (.ok (), w₂) := by
    refine (settled_now _ w).trans ((congrArg (settled directory · w) (if_neg ?_)).trans ?_)
    · exact fun h => hlive h.2
    refine (congrArg (settled directory · w) (if_neg fun h => hlive h.1)).trans ?_
    refine (congrArg (settled directory · w) (if_pos (w.stale_iff.mp hstale))).trans ?_
    rw [hbound]
    exact (settled_bind hclaim).trans (settled_bind hterminate)
  refine ⟨final, ?_, hfinished.1⟩
  rw [turn, hturn]
  exact hfinal

theorem settled_inspect {ref : SandboxRef} {inspection : SandboxInspection}
    (h : w.providers.inspect ref = .ok inspection) :
    settled directory (inspect ref) w = (.ok (some inspection), { w with
      reports := (0, ⟨ref, inspection.status == .missing, false⟩) :: w.reports }) := by
  have hfirst : settled directory (perform (.inspect ref)) w = (.ok inspection, { w with
      reports := (0, ⟨ref, inspection.status == .missing, false⟩) :: w.reports }) := by
    rw [settled_perform, SandboxWorld.execSettled]
    simp only [SandboxWorld.exec, h, SandboxWorld.settle]
  have hsome := settled_bind (f := fun i : SandboxInspection => .pure (some i)) hfirst
  exact Prog.evaluate_tryCatch_ok hsome _

/-- The turn of a live lease whose resource is gone. -/
theorem turn_gone {ref : SandboxRef} (hw : w.WellFormed)
    (hstored : w.lease? lease._id = some lease) (hlive : ¬ lease.expiresAt ≤ w.clock)
    (hfresh : ¬ w.Stale options lease) (hstate : lease.state ∈ [.ready, .running])
    (hbound : lease.ref? = some ref) (hgone : w.Gone ref)
    (hkind : options.kinds.contains lease.provider = true) :
    ∃ later, (turn options directory w lease).lease? lease._id = some later ∧
      later.state = .lost := by
  obtain ⟨inspection, hinspect, hmissing⟩ := hgone
  have hlive' : lease.state = .ready ∨ lease.state = .running := by simpa using hstate
  have hpresent : (present (some inspection)).isNone = true := by
    simp [present, hmissing]
  obtain ⟨later, w', hmove, hstored', hlater⟩ := @settled_moved directory _ _ _ [lease.state]
    .lost {} (hw.reported
      ((0, ⟨ref, inspection.status == .missing, false⟩) :: w.reports)) hstored (by simp) (by
        intro state hs
        cases List.mem_singleton.mp hs
        rcases hlive' with hs | hs <;> simp [hs, SANDBOX_ALLOWED_TRANSITIONS]) (by decide)
  have hreconcile : settled directory (reconcileLive options lease) w = (.ok (), w') := by
    rw [reconcileLive, hbound]
    refine (congrArg (settled directory · w) (if_neg (by simpa using hkind))).trans ?_
    refine (settled_bind (settled_inspect hinspect)).trans ?_
    exact (congrArg (settled directory · _) (if_pos hpresent)).trans (settled_bind hmove)
  have hturn : settled directory (reconcileLease options lease) w = (.ok (), w') := by
    refine (settled_now _ w).trans ((congrArg (settled directory · w) (if_neg ?_)).trans ?_)
    · exact fun h => hlive h.2
    refine (congrArg (settled directory · w) (if_neg fun h => hlive h.1)).trans ?_
    refine (congrArg (settled directory · w) (if_neg (mt w.stale_iff.mpr hfresh))).trans ?_
    cases hs : lease.state <;> first | exact hreconcile | simp [hs] at hstate
  refine ⟨later, ?_, hlater⟩
  rw [turn, hturn]
  exact hstored'

/-- A lease that gives way and whose branch is free is in another state after its turn. -/
theorem turn_moves (hw : w.WellFormed) (hstored : w.lease? lease._id = some lease)
    (hstate : lease.state ≠ .terminated) (hobliging : Obliging w.providers)
    (hkind : options.kinds.contains lease.provider = true) (hway : w.GivesWay options lease)
    (hfree : w.BranchFree lease) :
    ∃ later, (turn options directory w lease).lease? lease._id = some later ∧
      later.state ≠ lease.state := by
  by_cases hreserved : lease.state = .reserved ∧ lease.expiresAt ≤ w.clock
  · obtain ⟨later, hstored', hlater⟩ := (@turn_reserved options directory)
      hw hstored hreserved.1 hreserved.2
    exact ⟨later, hstored', by simp [hlater, hreserved.1]⟩
  by_cases hdue : lease.expiresAt ≤ w.clock ∧ lease.state ≠ .reserved ∨
      lease.state ∈ [.failed, .lost, .terminating]
  · obtain ⟨final, w', hrun, hstored', hfinal⟩ := (@terminateTurn_finishes _ directory)
      hw hstored hstate hfree hobliging hkind
    have hturn := ((@turn_terminates _ directory) hdue hstate).trans hrun
    refine ⟨final, ?_, by rw [hfinal.1]; exact hstate.symm⟩
    rw [turn, hturn]
    exact hstored'
  rw [not_or, not_and, not_not] at hdue
  have hlive : ¬ lease.expiresAt ≤ w.clock := fun h => hreserved ⟨hdue.1 h, h⟩
  rcases hway with h | h | ⟨ref, hbound, h⟩
  · exact absurd h hlive
  · exact absurd h hdue.2
  by_cases hstale : w.Stale options lease
  · obtain ⟨final, hstored', hfinal⟩ := (@turn_stale _ directory) hw hstored hlive hstale
      hbound hobliging hkind
    exact ⟨final, hstored', by rw [hfinal]; exact hstate.symm⟩
  · have hgone := h.resolve_left hstale
    obtain ⟨later, hstored', hlater⟩ := (@turn_gone _ directory) hw hstored hlive hstale
      hgone.1 hbound hgone.2 hkind
    refine ⟨later, hstored', fun he => ?_⟩
    rw [hlater] at he
    simp [← he] at hgone

/-- After its turn a lease that has expired is terminated with its resource, or not at all. -/
theorem turn_expired (hw : w.WellFormed) (hstored : w.lease? lease._id = some lease)
    (hstate : lease.state ≠ .terminated) (hobliging : Obliging w.providers)
    (hkind : options.kinds.contains lease.provider = true) (hexpired : lease.expiresAt ≤ w.clock) :
    ∃ later, (turn options directory w lease).lease? lease._id = some later ∧
      (later.state = .terminated → (turn options directory w lease).Finished later) := by
  by_cases hreserved : lease.state = .reserved
  · obtain ⟨later, hstored', hlater⟩ := (@turn_reserved options directory)
      hw hstored hreserved hexpired
    exact ⟨later, hstored', fun h => by simp [hlater] at h⟩
  have hturn := (@turn_terminates options directory)
    (.inl ⟨hexpired, hreserved⟩) hstate
  by_cases hfree : w.BranchFree lease
  · obtain ⟨final, w', hrun, hstored', hfinal⟩ := (@terminateTurn_finishes _ directory)
      hw hstored hstate hfree hobliging hkind
    rw [turn, hturn, hrun]
    exact ⟨final, hstored', fun _ => hfinal⟩
  · rw [turn, hturn, terminateTurn_refused hw hstored hstate hfree]
    exact ⟨lease, hstored, fun h => absurd h hstate⟩

/-- What the turn of a stored lease may change. -/
theorem passed_turn (hw : w.WellFormed) (hstored : w.lease? lease._id = some lease) :
    SandboxWorld.Passed (fun leaseId => leaseId = lease._id) w (turn options directory w lease) := by
  have hsaw : ∀ other, Saw [⟨.scanLeases, .ok [lease]⟩] other → other = lease := by
    rintro other ⟨x, hx, hother⟩
    cases List.mem_singleton.mp hx
    exact List.mem_singleton.mp hother
  have hrecalls : w.Recalls 0 [⟨.scanLeases, .ok [lease]⟩] := {
    saw := fun other h => hsaw other h ▸ .of_lease? hstored
    binds := fun other h => hsaw other h ▸ hw.binds lease (SandboxWorld.mem_of_lease? hstored)
    clock := fun now h => by cases List.mem_singleton.mp h
    wrote := nofun
    told := nofun }
  exact passed_of_conducted hw hrecalls
    (reconcileLease_conducted ⟨_, List.mem_cons_self, List.mem_cons_self⟩)
    (reconcileLease_confined rfl)

end Turns

end AppBuilder.Sandbox
