import AppBuilder.Sandbox.Answers
import AppBuilder.Sandbox.SandboxReconciler

/-! Which leases a program may write. -/
namespace AppBuilder.Sandbox
open Agent Async

/-- The operation creates no lease, and updates one of these at most. -/
def SandboxOp.Within (mine : ObjectId → Prop) (op : SandboxOp) : Prop :=
  (∀ record, op ≠ .createLease record) ∧ ∀ u, op.update? = some u → mine u.leaseId

section Rules

variable (directory : Directory) (key : SandboxRef → String) (mine : ObjectId → Prop)
  {α β : Type}

def Confined (p : SandboxPromise α) (Q : α → Prop) : Prop :=
  (Protocol.footprint (SandboxOp.Within mine) (Possible directory key)).Tracks p ()
    (fun a _ => Q a) fun _ _ => True

variable {directory key mine} {p : SandboxPromise α} {Q : α → Prop} {R : β → Prop}

theorem Confined.pure {a : α} (h : Q a) : Confined directory key mine (.pure a) Q := h

theorem Confined.throw {e : Failure} :
    Confined directory key mine (.throw e : SandboxPromise α) Q := trivial

theorem Confined.mono {Q' : α → Prop} (hp : Confined directory key mine p Q)
    (hQ : ∀ a, Q a → Q' a) : Confined directory key mine p Q' :=
  Protocol.Tracks.mono hp (fun a _ => hQ a) fun _ _ _ => trivial

theorem Confined.andThen {f : α → SandboxPromise β} (hp : Confined directory key mine p Q)
    (hf : ∀ a, Q a → Confined directory key mine (f a) R) :
    Confined directory key mine (p.bind f) R :=
  (Protocol.tracks_bind ..).mpr (Protocol.Tracks.mono hp (fun a _ => hf a) fun _ _ _ => trivial)

theorem Confined.last (op : SandboxOp) {Q : op.Reply → Prop} (hop : op.Within mine)
    (hQ : ∀ v, Possible directory key op (.ok v) → Q v) :
    Confined directory key mine (perform op) Q :=
  (Protocol.tracks_perform ()).mpr ⟨hop, hQ, fun _ _ => trivial⟩

theorem Confined.step (op : SandboxOp) {f : op.Reply → SandboxPromise β} (hop : op.Within mine)
    (hf : ∀ v, Possible directory key op (.ok v) → Confined directory key mine (f v) R) :
    Confined directory key mine ((perform op).bind f) R :=
  Protocol.tracks_step hop hf fun _ _ => trivial

theorem Confined.ite {c : Prop} [Decidable c] {p' : SandboxPromise α}
    (hc : Confined directory key mine p Q) (hn : Confined directory key mine p' Q) :
    Confined directory key mine (if c then p else p') Q := by
  split
  · exact hc
  · exact hn

theorem Confined.tryCatch {handler : Failure → SandboxPromise α}
    (hp : Confined directory key mine p Q)
    (hh : ∀ e, Confined directory key mine (handler e) Q) :
    Confined directory key mine (p.tryCatch handler) Q :=
  (Protocol.tracks_tryCatch ..).mpr (Protocol.Tracks.mono hp (fun _ _ ha => ha)
    fun e _ _ => hh e)

theorem Confined.attempted {f : Except Failure α → SandboxPromise β}
    (hp : Confined directory key mine p Q) (hf : ∀ r, Confined directory key mine (f r) R) :
    Confined directory key mine (p.attempt.bind f) R := by
  refine (Protocol.tracks_bind ..).mpr ((Protocol.tracks_attempt ..).mpr ?_)
  exact Protocol.Tracks.mono hp (fun a _ _ => hf (.ok a)) fun e _ _ => hf (.error e)

theorem Confined.foldEach {σ : Type} {f : σ → α → SandboxPromise σ} {s : σ} {xs : List α}
    {inv : σ → Prop} (hs : inv s)
    (hf : ∀ s x, inv s → x ∈ xs → Confined directory key mine (f s x) inv) :
    Confined directory key mine (Prog.foldEach f s xs) inv :=
  Protocol.tracks_foldEach (fun s x _ hs hx => hf s x hs hx) hs

end Rules

section Programs

variable {options : SandboxServiceOptions} {directory : Directory} {key : SandboxRef → String}
  {mine : ObjectId → Prop}

theorem transition_confined {leaseId : ObjectId} {source : List SandboxLeaseState}
    {target : SandboxLeaseState} {set : LeasePatch} (hmine : mine leaseId) :
    Confined directory key mine (transition leaseId source target set)
      fun lease => ∀ l, lease = some l → l._id = leaseId := by
  refine Confined.ite trivial (Confined.last _ ⟨nofun, ?_⟩ ?_)
  · rintro u ⟨⟩
    exact hmine
  · rintro v hv l rfl
    exact hv.transition.1

theorem requireLease_confined (leaseId : ObjectId) :
    Confined directory key mine (requireLease leaseId) fun lease => lease._id = leaseId := by
  refine Confined.step (.findLease leaseId) ⟨nofun, nofun⟩ fun v hv => ?_
  cases v with
  | none => trivial
  | some lease => exact hv.findLease

theorem orRequire_confined {changed : Option SandboxLease} {leaseId : ObjectId}
    (h : ∀ l, changed = some l → l._id = leaseId) :
    Confined directory key mine (orRequire changed leaseId) fun lease => lease._id = leaseId := by
  cases changed with
  | none => exact requireLease_confined leaseId
  | some lease => exact h lease rfl

theorem assertOwnership_confined (lease : SandboxLease) (expected : SandboxOwnership) :
    Confined directory key mine (assertOwnership lease expected) fun _ => True :=
  Confined.ite trivial trivial

theorem requireProvider_confined (kind : String) :
    Confined directory key mine (requireProvider options kind) fun _ => True :=
  Confined.ite trivial trivial

theorem terminatedAt_confined {leaseId : ObjectId} (hmine : mine leaseId) :
    Confined directory key mine (terminatedAt leaseId)
      fun lease => ∀ l, lease = some l → l._id = leaseId :=
  Confined.step .now ⟨nofun, nofun⟩ fun _ _ => transition_confined hmine

theorem enterTerminating_confined {lease : SandboxLease} (hmine : mine lease._id) :
    Confined directory key mine (enterTerminating lease) fun next => next._id = lease._id :=
  Confined.ite ((transition_confined hmine).andThen fun _ h => orRequire_confined h) rfl

theorem terminate_confined {leaseId : ObjectId} {expected : SandboxOwnership}
    (hmine : mine leaseId) :
    Confined directory key mine (terminate options leaseId expected) fun _ => True := by
  have hfinish : ∀ id : ObjectId, id = leaseId → Confined directory key mine (do
      let done ← terminatedAt id
      orRequire done id) fun _ => True := fun id hid =>
    (terminatedAt_confined (hid ▸ hmine)).andThen fun _ h =>
      (orRequire_confined h).mono fun _ _ => trivial
  have hread : ∀ id : ObjectId,
      Confined directory key mine (requireLease id) fun _ => True := fun id =>
    (requireLease_confined id).mono fun _ _ => trivial
  refine (requireLease_confined leaseId).andThen fun lease hid => ?_
  refine (assertOwnership_confined lease expected).andThen fun _ _ => Confined.ite trivial ?_
  refine (enterTerminating_confined (hid ▸ hmine)).andThen fun next hnext => ?_
  refine Confined.ite trivial ?_
  have hid' : next._id = leaseId := hnext.trans hid
  split
  · exact hfinish next._id hid'
  · refine (requireProvider_confined next.provider).andThen fun _ _ => ?_
    refine Confined.step (.destroy _) ⟨nofun, nofun⟩ fun receipt _ => Confined.ite (hread _) ?_
    refine Confined.step (.inspect _) ⟨nofun, nofun⟩ fun inspection _ => ?_
    exact Confined.ite (hread _) (hfinish next._id hid')

theorem inspect_confined (ref : SandboxRef) :
    Confined directory key mine (inspect ref) fun _ => True :=
  Confined.tryCatch (Confined.step (.inspect ref) ⟨nofun, nofun⟩ fun _ _ => trivial)
    fun _ => Confined.ite trivial trivial

theorem hydrate_confined {lease : SandboxLease} (ref : SandboxRef) (hmine : mine lease._id) :
    Confined directory key mine (hydrate options lease ref)
      fun ready => ∀ l, ready = some l → l._id = lease._id := by
  refine Confined.andThen (Q := fun _ => True) (Confined.tryCatch (Confined.last _ ⟨nofun, nofun⟩
    fun _ _ => trivial) fun _ => trivial) fun bundle _ => ?_
  refine Confined.step (.connect ref) ⟨nofun, nofun⟩ fun _ _ => ?_
  refine Confined.step (.waitUntilReady ref _) ⟨nofun, nofun⟩ fun _ _ => ?_
  refine Confined.step (.writeFiles ref _) ⟨nofun, nofun⟩ fun _ _ => ?_
  refine Confined.step .now ⟨nofun, nofun⟩ fun readyAt _ => ?_
  exact Confined.step .now ⟨nofun, nofun⟩ fun lastHeartbeatAt _ => transition_confined hmine

theorem cleanupFailedProvisioning_confined {lease : SandboxLease} (ref : SandboxRef)
    (hmine : mine lease._id) :
    Confined directory key mine (cleanupFailedProvisioning lease ref) fun _ => True := by
  refine (transition_confined hmine).andThen fun _ _ => ?_
  refine Confined.attempted (Q := fun _ => True) (Confined.last _ ⟨nofun, nofun⟩ fun _ _ => trivial)
    fun receipt => ?_
  cases receipt with
  | error e => trivial
  | ok receipt =>
    exact Confined.ite trivial ((terminatedAt_confined hmine).andThen fun _ _ => trivial)

theorem resumeProvisioning_confined {leaseId : ObjectId} (hmine : mine leaseId) :
    Confined directory key mine (resumeProvisioning options leaseId) fun _ => True := by
  refine (requireLease_confined leaseId).andThen fun lease hid => Confined.ite trivial ?_
  have hlease : mine lease._id := hid ▸ hmine
  split
  · refine (requireProvider_confined lease.provider).andThen fun _ _ => ?_
    refine Confined.andThen (Confined.tryCatch (hydrate_confined _ hlease) fun error =>
      (cleanupFailedProvisioning_confined _ hlease).andThen fun _ _ =>
        Confined.ite trivial trivial) fun ready hready => ?_
    exact (orRequire_confined fun l hl => (hready l hl).trans hid).mono fun _ _ => trivial
  · trivial

theorem claimAndResume_confined {leaseId : ObjectId} (hmine : mine leaseId) :
    Confined directory key mine (claimAndResume options leaseId) fun _ => True := by
  refine Confined.step (.findLease leaseId) ⟨nofun, nofun⟩ fun before _ => ?_
  cases before with
  | none => trivial
  | some before =>
    refine Confined.ite trivial (Confined.step .now ⟨nofun, nofun⟩ fun claimedAt _ => ?_)
    refine Confined.step (.claimProvisioning leaseId before.updatedAt claimedAt) ⟨nofun, ?_⟩
      fun claimed _ => Confined.ite trivial
        ((resumeProvisioning_confined hmine).andThen fun _ _ => trivial)
    rintro u ⟨⟩
    exact hmine

theorem rebind_confined {lease : SandboxLease} (hmine : mine lease._id) :
    Confined directory key mine (rebind options lease) fun _ => True := by
  refine Confined.step (.list lease.provider _) ⟨nofun, nofun⟩ fun refs _ => ?_
  have hinspect : Confined directory key mine (inspectAll refs) fun _ => True := by
    refine Confined.foldEach trivial fun found ref _ _ => ?_
    refine (inspect_confined ref).andThen fun inspection _ => ?_
    split <;> trivial
  refine hinspect.andThen fun found _ => ?_
  have hretain : ∀ inspections, Confined directory key mine (retain lease inspections)
      fun _ => True := by
    rintro (_ | ⟨kept, rest⟩)
    · exact Confined.last _ ⟨nofun, nofun⟩ fun _ _ => trivial
    · trivial
  refine (hretain _).andThen fun retained _ => ?_
  have hdestroy : ∀ duplicates, Confined directory key mine (destroyDuplicates duplicates)
      fun _ => True := fun duplicates => Confined.foldEach trivial fun _ duplicate _ _ =>
    Confined.step (.destroy duplicate.1) ⟨nofun, nofun⟩ fun _ _ => trivial
  refine (hdestroy _).andThen fun _ _ => ?_
  refine Confined.step (.bindExternalId lease._id retained) ⟨nofun, ?_⟩ fun bound _ => ?_
  · rintro u ⟨⟩
    exact hmine
  have hbound : Confined directory key mine (boundExternalId bound lease._id) fun _ => True := by
    unfold boundExternalId
    split
    · trivial
    · exact Confined.step (.findLease lease._id) ⟨nofun, nofun⟩ fun _ _ => trivial
  exact hbound.andThen fun externalId _ => Confined.ite trivial (claimAndResume_confined hmine)

theorem reconcileProvisioning_confined {lease : SandboxLease} (hmine : mine lease._id) :
    Confined directory key mine (reconcileProvisioning options lease) fun _ => True := by
  refine Confined.ite trivial ?_
  split
  · exact rebind_confined hmine
  · rename_i ref href
    refine (inspect_confined ref).andThen fun inspection _ => Confined.ite ?_
      (claimAndResume_confined hmine)
    refine Confined.step (.clearExternalId lease._id ref) ⟨nofun, ?_⟩ fun cleared _ =>
      Confined.ite trivial (rebind_confined hmine)
    rintro u ⟨⟩
    exact hmine

theorem reconcileLive_confined {lease : SandboxLease} (hmine : mine lease._id) :
    Confined directory key mine (reconcileLive options lease) fun _ => True := by
  unfold reconcileLive
  split
  · trivial
  · rename_i ref href
    refine Confined.ite trivial ((inspect_confined ref).andThen fun inspection _ =>
      Confined.ite ?_ trivial)
    exact (transition_confined hmine).andThen fun _ _ => trivial

theorem reconcileLease_confined {lease : SandboxLease} (hmine : mine lease._id) :
    Confined directory key mine (reconcileLease options lease) fun _ => True := by
  have hterminate : Confined directory key mine (do
      let _ ← terminate options lease._id lease.ownership
      return ()) fun _ => True := (terminate_confined hmine).andThen fun _ _ => trivial
  refine Confined.step .now ⟨nofun, nofun⟩ fun (now : Time) _ => ?_
  refine Confined.ite ((transition_confined hmine).andThen fun _ _ => trivial) ?_
  refine Confined.ite hterminate (Confined.ite ?_ ?_)
  · split
    · trivial
    · rename_i ref href
      refine Confined.step (.claimStaleRunning lease._id ref _) ⟨nofun, ?_⟩ fun claimed _ =>
        Confined.ite trivial hterminate
      rintro u ⟨⟩
      exact hmine
  · split
    · exact reconcileProvisioning_confined hmine
    · exact reconcileLive_confined hmine
    · exact reconcileLive_confined hmine
    · exact hterminate
    · exact hterminate
    · exact hterminate
    · trivial
    · trivial

theorem reconcileOrphans_confined (kind : String) :
    Confined directory key mine (reconcileOrphans options kind) fun _ => True := by
  refine Confined.step (.list kind _) ⟨nofun, nofun⟩ fun refs _ => ?_
  refine Confined.step .now ⟨nofun, nofun⟩ fun now _ => ?_
  refine Confined.foldEach trivial fun _ ref _ _ => ?_
  refine (inspect_confined ref).andThen fun inspection _ => ?_
  split
  · trivial
  · refine Confined.ite trivial ?_
    refine Confined.step (.findByProviderRef ref) ⟨nofun, nofun⟩ fun lease _ => ?_
    exact Confined.ite trivial (Confined.step (.destroy ref) ⟨nofun, nofun⟩ fun _ _ => trivial)

end Programs

end AppBuilder.Sandbox
