import AppBuilder.Sandbox.CommandLoss

/-! A call runs at most one command, and the result it returns is the one of a command whose
heartbeats were not refused. -/
namespace AppBuilder.Sandbox
open Agent Async

variable {options : SandboxServiceOptions} {directory : Directory} {key : SandboxRef → String}

def SandboxOp.opensCommand : SandboxOp → Bool
  | .openCommand .. => true
  | _ => false

/-- Whether the call has opened its command; of other calls than `runBuildCommand` nothing is
said. -/
abbrev opening : Protocol sandboxApi (Option Bool) where
  permits φ op := op.opensCommand = true → φ ≠ some true
  possible _ _ := True
  next φ op _ := φ.map (· || op.opensCommand)

/-- The program opens no command. -/
def OpensNone {α : Type} (p : SandboxPromise α) : Prop :=
  ∀ φ, opening.Tracks p φ (fun _ ψ => ψ = φ) fun _ ψ => ψ = φ

namespace OpensNone

variable {α β : Type}

theorem done (a : α) : OpensNone (.pure a) := fun _ => rfl

theorem throw (e : Failure) : OpensNone (.throw e : SandboxPromise α) := fun _ => rfl

theorem andThen {p : SandboxPromise α} {f : α → SandboxPromise β} (hp : OpensNone p)
    (hf : ∀ a, OpensNone (f a)) : OpensNone (p.bind f) := by
  intro φ
  refine (Protocol.tracks_bind ..).mpr ((hp φ).mono (fun a ψ hψ => ?_) fun _ _ hψ => hψ)
  subst hψ
  exact hf a ψ

theorem last {op : SandboxOp} (hop : op.opensCommand = false) : OpensNone (perform op) := by
  intro φ
  have hsame : φ.map (· || op.opensCommand) = φ := by cases φ <;> simp [hop]
  refine (Protocol.tracks_perform φ).mpr ⟨fun h => ?_, fun _ _ => hsame, fun _ _ => hsame⟩
  rw [hop] at h
  cases h

theorem step {op : SandboxOp} {f : op.Reply → SandboxPromise α} (hop : op.opensCommand = false)
    (hf : ∀ v, OpensNone (f v)) : OpensNone ((perform op).bind f) := (last hop).andThen hf

theorem attempt {p : SandboxPromise α} (hp : OpensNone p) : OpensNone p.attempt :=
  fun φ => (Protocol.tracks_attempt ..).mpr (hp φ)

theorem tryCatch {p : SandboxPromise α} {f : Failure → SandboxPromise α} (hp : OpensNone p)
    (hf : ∀ e, OpensNone (f e)) : OpensNone (p.tryCatch f) := by
  intro φ
  refine (Protocol.tracks_tryCatch ..).mpr ((hp φ).mono (fun _ _ hψ => hψ) fun e ψ hψ => ?_)
  subst hψ
  exact hf e ψ

theorem tryFinally {p : SandboxPromise α} {q : SandboxPromise Unit} (hp : OpensNone p)
    (hq : OpensNone q) : OpensNone (p.tryFinally q) := by
  intro φ
  refine (Protocol.tracks_tryFinally ..).mpr ((hp φ).mono (fun a ψ hψ => ?_) fun e ψ hψ => ?_)
  · subst hψ
    exact hq ψ
  · subst hψ
    exact hq ψ

theorem ite {c : Prop} [Decidable c] {p q : SandboxPromise α} (hp : OpensNone p)
    (hq : OpensNone q) : OpensNone (if c then p else q) := by
  split_ifs
  · exact hp
  · exact hq

end OpensNone

theorem check_opensNone {α : Type} (r : Except Failure α) : OpensNone (check r) := by
  cases r with
  | ok a => exact .done a
  | error e => exact .throw e

theorem transition_opensNone (leaseId : ObjectId) (source : List SandboxLeaseState)
    (target : SandboxLeaseState) (set : LeasePatch) :
    OpensNone (transition leaseId source target set) :=
  .ite (.throw _) (.last rfl)

theorem requireLease_opensNone (leaseId : ObjectId) : OpensNone (requireLease leaseId) := by
  refine .step rfl fun lease => ?_
  cases lease with
  | none => exact .throw _
  | some lease => exact .done lease

theorem orRequire_opensNone (changed : Option SandboxLease) (leaseId : ObjectId) :
    OpensNone (orRequire changed leaseId) := by
  cases changed with
  | none => exact requireLease_opensNone leaseId
  | some lease => exact .done lease

theorem throwIfAborted_opensNone (signal : Option ℕ) : OpensNone (throwIfAborted signal) := by
  refine .step rfl fun reason => ?_
  cases reason with
  | none => exact .done ()
  | some reason => exact .throw reason

theorem throwIfCommandAborted_opensNone (commandId : ℕ) :
    OpensNone (throwIfCommandAborted commandId) := by
  refine .step rfl fun reason => ?_
  cases reason with
  | none => exact .done ()
  | some reason => exact .throw reason

theorem heartbeat_opensNone (leaseId : ObjectId) (ref : SandboxRef) :
    OpensNone (heartbeat leaseId ref) := by
  refine .step rfl fun _ => .step rfl fun _ => .step rfl fun stored => ?_
  exact .ite (.throw _) (.done ())

theorem runCommand_opensNone (commandId : ℕ) (leaseId : ObjectId) (ref : SandboxRef)
    (command : SandboxCommand) : OpensNone (runCommand commandId leaseId ref command) := by
  have hfirst : OpensNone (firstHeartbeat commandId leaseId ref) := by
    refine (heartbeat_opensNone leaseId ref).attempt.andThen fun outcome => ?_
    cases outcome with
    | ok _ => exact .last rfl
    | error e => exact .step rfl fun _ => .throw _
  have hcheck := throwIfCommandAborted_opensNone commandId
  refine hfirst.andThen fun _ => hcheck.andThen fun _ => .step rfl fun result => ?_
  exact hcheck.andThen fun _ => .ite (.throw _) (.done result)

theorem connectOrLose_opensNone (lease : SandboxLease) (ref : SandboxRef) :
    OpensNone (connectOrLose lease ref) := by
  refine OpensNone.tryCatch (.last rfl) fun e => .ite ?_ (.throw e)
  exact (transition_opensNone _ _ _ _).andThen fun _ => .throw _

theorem enterRunning_opensNone (lease : SandboxLease) : OpensNone (enterRunning lease) := by
  refine .ite ?_ (.done lease)
  refine .step rfl fun now => (transition_opensNone _ _ _ _).andThen fun changed => ?_
  exact (orRequire_opensNone _ _).andThen fun lease => .ite (.throw _) (.done lease)

/-- A command's call opens one command. -/
theorem runBuildCommand_opening (input : RunBuildCommandInput) :
    opening.Tracks (runBuildCommand options input) (some false) (fun _ ψ => ψ ≠ none)
      fun _ _ => True := by
  have hthen : ∀ {α β : Type} {p : SandboxPromise α} {f : α → SandboxPromise β} {φ : Option Bool},
      OpensNone p → (∀ a, opening.Tracks (f a) φ (fun _ ψ => ψ ≠ none) fun _ _ => True) →
      opening.Tracks (p.bind f) φ (fun _ ψ => ψ ≠ none) fun _ _ => True := by
    intro α β p f φ hp hf
    refine (Protocol.tracks_bind ..).mpr ((hp φ).mono (fun a ψ hψ => ?_) fun _ _ _ => trivial)
    subst hψ
    exact hf a
  refine hthen (throwIfAborted_opensNone _) fun _ => ?_
  refine hthen (requireLease_opensNone _) fun lease => ?_
  refine hthen (.ite (.throw _) (.done ())) fun _ => ?_
  split
  · rename_i ref _ _
    refine hthen (.ite (.done ()) (.throw _)) fun _ => ?_
    refine hthen (connectOrLose_opensNone _ _) fun _ => ?_
    refine hthen (OpensNone.last (show SandboxOp.opensCommand (.findWorkspace lease.workspaceId) = false from rfl)) fun workspace => ?_
    cases workspace with
    | none => trivial
    | some workspace =>
      refine hthen (OpensNone.last (show SandboxOp.opensCommand (.fileExists ref "package-lock.json") = false from rfl)) fun hasPackageLock => ?_
      refine hthen (check_opensNone _) fun command => ?_
      refine hthen (enterRunning_opensNone lease) fun lease => ?_
      refine Protocol.tracks_step (fun _ => by simp) (fun commandId _ => ?_) fun _ _ => trivial
      refine (OpensNone.tryFinally (runCommand_opensNone commandId lease._id _ command)
        (.step rfl fun _ => .last rfl) _).mono (fun _ ψ hψ => ?_) fun _ _ _ => trivial
      subst hψ
      simp [SandboxOp.opensCommand]
  · trivial

section Counting

namespace SandboxWorld

variable {w w' : SandboxWorld key} {t : ThreadId}

/-- How many commands the call has opened. -/
def commandCount (w : SandboxWorld key) (t : ThreadId) : ℕ :=
  (w.commands.map fun c => c.thread).count t

theorem commandCount_map {f : CommandRun → CommandRun} (hf : ∀ c, (f c).thread = c.thread)
    (heq : w'.commands = w.commands.map f) : w'.commandCount t = w.commandCount t := by
  rw [commandCount, heq, List.map_map]
  exact congrArg (List.count t) (List.map_congr_left fun c _ => hf c)

theorem commandCount_modify (commandId : ℕ) {f : CommandRun → CommandRun}
    (hf : ∀ c, (f c).thread = c.thread) :
    (w.modifyCommand commandId f).commandCount t = w.commandCount t := by
  refine commandCount_map (fun c => ?_) rfl
  split_ifs
  · exact hf c
  · rfl

variable (directory) in
/-- Only the opening of a command counts. -/
theorem exec_commandCount {op : SandboxOp} (hop : op.opensCommand = false) (u : ThreadId)
    (w : SandboxWorld key) : (w.exec directory u op).2.commandCount t = w.commandCount t := by
  have hsame : ∀ {w' : SandboxWorld key}, w'.commands = w.commands →
      w'.commandCount t = w.commandCount t := fun heq => by rw [commandCount, heq, commandCount]
  cases op with
  | openCommand leaseId ref signal => cases hop
  | run commandId ref command =>
    exact commandCount_modify commandId (f := fun c => { c with
      ran := !(w.providers.run ref command).timedOut }) fun _ => rfl
  | commandAborted commandId =>
    exact commandCount_modify commandId (f := fun c => { c with
      passed := c.ran && c.aborted.isNone }) fun _ => rfl
  | closeCommand commandId =>
    exact commandCount_modify commandId (f := fun c => { c with
      signal := none, closed := true }) fun _ => rfl
  | beginHeartbeat commandId =>
    simp only [exec]
    split_ifs
    · exact commandCount_modify commandId fun _ => rfl
    · rfl
  | settleHeartbeat commandId scheduled failure =>
    refine commandCount_modify commandId fun c => ?_
    cases scheduled <;> cases failure <;> rfl
  | now | unlock | signalAborted | awaitHeartbeat =>
    exact hsame (exec_commands directory (by rintro _ _ _ ⟨⟩) (by simp))
  | _ => exact hsame (exec_commands directory (by rintro _ _ _ ⟨⟩) (.inl rfl))

variable (directory) in
theorem exec_commandCount_open {op : SandboxOp} (hop : op.opensCommand = true) (u : ThreadId)
    (w : SandboxWorld key) : (w.exec directory u op).2.commandCount t =
      w.commandCount t + if u = t then 1 else 0 := by
  cases op with
  | openCommand leaseId ref signal => simp [exec, commandCount, List.count_singleton]
  | _ => cases hop

end SandboxWorld

end Counting

section OneCommand

variable (options : SandboxServiceOptions) (directory : Directory) (key : SandboxRef → String)

def SandboxCall.opening : SandboxCall → Option Bool
  | .runBuildCommand _ => some false
  | _ => none

theorem opening_none {α : Type} (p : SandboxPromise α) :
    Sandbox.opening.Tracks p none (fun _ _ => True) fun _ _ => True := by
  induction p with
  | pure a => trivial
  | throw e => trivial
  | await op next ih => exact ⟨fun _ h => (nomatch h), fun r _ => ih r⟩

def openingConformance :
    Conformance (@sandboxes key options directory) Sandbox.opening where
  start := SandboxCall.opening
  crash φ := φ
  returns _ r φ := ∀ result, r = .command result → φ ≠ none
  throws _ _ _ := True
  body_tracks call := by
    have hother : ∀ {α : Type} (p : SandboxPromise α) (f : α → SandboxResult),
        (∀ a result, f a ≠ .command result) →
        Sandbox.opening.Tracks (p.bind fun a => .pure (f a)) none
          (fun r φ => ∀ result, r = .command result → φ ≠ none) fun _ _ => True := by
      intro α p f hf
      refine (Protocol.tracks_bind ..).mpr
        ((opening_none p).mono (fun a ψ _ => ?_) fun _ _ _ => trivial)
      exact fun result hr => absurd hr (hf a result)
    cases call with
    | reserve request => exact hother _ .lease fun _ _ hr => nomatch hr
    | createBuildSandbox input => exact hother _ .lease fun _ _ hr => nomatch hr
    | resumeProvisioning leaseId => exact hother _ .lease fun _ _ hr => nomatch hr
    | runBuildCommand input =>
      refine (Protocol.tracks_bind ..).mpr
        ((runBuildCommand_opening input).mono ?_ fun _ _ _ => trivial)
      exact fun result ψ hψ _ _ => hψ
    | runScheduled commandId leaseId ref => exact hother _ (fun _ => .done) fun _ _ hr => nomatch hr
    | terminate leaseId expected => exact hother _ .lease fun _ _ hr => nomatch hr
    | reconcile => exact hother _ (fun _ => .done) fun _ _ hr => nomatch hr
  possible _ _ _ := trivial

def openingDiscipline : Discipline (openingConformance options directory key) where
  ok _ _ := True
  shared n w := ∀ t, n ≤ t → w.commandCount t = 0
  own t _ φ w := ∀ opened, φ = some opened → w.commandCount t ≤ opened.toNat
  moves m w w' := ∀ u, m ≠ some u → w'.commandCount u = w.commandCount u
  spawn n call w hw _ := by
    refine ⟨fun t ht => hw t (by omega), fun opened _ => ?_, fun _ _ => rfl⟩
    rw [hw n le_rfl]
    exact Nat.zero_le _
  advance c t o call op next φ ht _ _ hw hown hc := by
    have hlt : t < c.threads.length := (List.getElem?_eq_some_iff.mp ht).1
    have hexec : (∀ u, t ≠ u → (c.state.exec directory t op).2.commandCount u =
        c.state.commandCount u) ∧ ∀ opened, φ.map (· || op.opensCommand) = some opened →
          (c.state.exec directory t op).2.commandCount t ≤ opened.toNat := by
      cases hop : op.opensCommand with
      | false =>
        refine ⟨fun u _ => SandboxWorld.exec_commandCount directory hop t c.state, ?_⟩
        intro opened hφ
        rw [SandboxWorld.exec_commandCount directory hop]
        exact hown opened (by simpa using hφ)
      | true =>
        refine ⟨fun u hu => ?_, fun opened hφ => ?_⟩
        · rw [SandboxWorld.exec_commandCount_open directory hop, if_neg hu, Nat.add_zero]
        · rw [SandboxWorld.exec_commandCount_open directory hop, if_pos rfl]
          cases φ with
          | none => cases hφ
          | some before =>
            cases before with
            | true => exact absurd rfl (hc hop)
            | false =>
              cases hφ
              have hzero := hown false rfl
              simp only [Bool.toNat_false, Nat.le_zero] at hzero
              simp [hzero]
    have hshared : ∀ u, c.threads.length ≤ u →
        (c.state.exec directory t op).2.commandCount u = 0 := by
      intro u hu
      rw [hexec.1 u (hlt.trans_le hu).ne, hw u hu]
    have hmoves : ∀ u, some t ≠ some u → (c.state.exec directory t op).2.commandCount u =
        c.state.commandCount u := fun u hu => hexec.1 u fun he => hu (congrArg some he)
    cases o with
    | done => exact ⟨hshared, hexec.2, hmoves⟩
    | refused e =>
      refine ⟨hw, fun opened hφ => ?_, fun _ _ => rfl⟩
      cases φ with
      | none => cases hφ
      | some before =>
        cases hφ
        refine (hown before rfl).trans ?_
        cases before <;> simp
    | unacknowledged e => exact ⟨hshared, hexec.2, hmoves⟩
  crash _ c t call p φ _ _ hw hown := by
    have hsame : ∀ u, (stopProcess t c.state).commandCount u = c.state.commandCount u := by
      intro u
      refine SandboxWorld.commandCount_map (fun d => ?_) rfl
      split_ifs <;> rfl
    refine ⟨fun u hu => ?_, fun opened hφ => ?_, fun u _ => hsame u⟩
    · exact (hsame u).trans (hw u hu)
    · exact (hsame t).trans_le (hown opened hφ)
  act c a w _ ha hw := by
    cases a with
    | abortSignal signal reason =>
      cases Option.some.inj ha
      have hsame : ∀ u, SandboxWorld.commandCount { c.state with
          signals := c.state.signals ++ [(signal, reason)]
          commands := c.state.commands.map fun d =>
            if d.signal == some signal then d.abort reason else d } u =
          c.state.commandCount u := by
        intro u
        refine SandboxWorld.commandCount_map (fun d => ?_) rfl
        split_ifs <;> rfl
      exact ⟨fun u hu => (hsame u).trans (hw u hu), fun u _ => hsame u⟩
    | elapse | change =>
      cases Option.some.inj ha
      exact ⟨hw, fun _ _ => rfl⟩
  stable _ _ _ _ u _ φ _ _ hm hu _ hown := fun opened hφ => (hm u hu).trans_le (hown opened hφ)

end OneCommand

section Claim

variable (options : SandboxServiceOptions) (directory : Directory)

/-- Nothing renews a lease that the step takes over, in any run from there. -/
def TakeOverFinal (c : Running key) (l : Step key) : Prop :=
  ∀ c' lease, TakesOver options directory c l c' lease → ∀ ls,
    (sandboxes options directory).Along (NotRenewed lease._id) c' ls

/-- When a call returns the result of its command, none of its heartbeats has been refused. -/
def ReturnsUnrefused (c : Running key) (l : Step key) : Prop :=
  ∀ c' t call result, (sandboxes options directory).step c l = some c' →
    c'.threads[t]? = some ⟨call, .pure (.command result), false⟩ →
    c.threads[t]? ≠ c'.threads[t]? → ∀ command ∈ c'.state.commands, command.thread = t →
      command.reported = false ∧ command.firstRefused = false

/-- What the services promise of leases that are lost. -/
structure LossRespected (c : Running key) (l : Step key) : Prop where
  writes : WritesAllowed options directory c l
  stale : TakesOverStale options directory c l
  final : TakeOverFinal options directory c l
  results : ReturnsUnrefused options directory c l

variable {options directory}

theorem takeOverFinal_step {c : Running key} {l : Step key}
    (hc : (leaseDiscipline options directory key).Holds c) :
    TakeOverFinal options directory c l := by
  intro c' lease htakes ls
  obtain ⟨-, -, hgiven⟩ := htakes.spec hc
  have hc' := (Discipline.holds_step hc trivial htakes.step).1
  refine Machine.along_of_invariant (J := fun c =>
    (leaseDiscipline options directory key).Holds c ∧ c.state.GivenUp lease._id)
    (fun _ _ h _ => notRenewed_of_givenUp h.2) ?_ (Machine.along_true c' ls) ⟨hc', hgiven⟩
  rintro c l c' ⟨hc, hgiven⟩ - hstep
  obtain ⟨hc', m, hm⟩ := Discipline.holds_step hc trivial hstep
  exact ⟨hc', hgiven.keeps hm.keeps⟩

theorem SandboxWorld.eq_of_commandCount {w : SandboxWorld key} {t : ThreadId} {c d : CommandRun}
    (hcount : w.commandCount t ≤ 1) (hc : c ∈ w.commands) (hd : d ∈ w.commands)
    (hct : c.thread = t) (hdt : d.thread = t) : c = d := by
  by_contra hne
  obtain ⟨before, after, heq⟩ := List.append_of_mem hc
  have hrest : d ∈ before ++ after := by
    rw [heq, List.mem_append, List.mem_cons] at hd
    rcases hd with hd | rfl | hd
    · exact List.mem_append_left _ hd
    · exact absurd rfl hne
    · exact List.mem_append_right _ hd
  have hpos : 0 < ((before ++ after).map fun c => c.thread).count t :=
    List.count_pos_iff.mpr (List.mem_map.mpr ⟨d, hrest, hdt⟩)
  simp only [commandCount, heq, List.map_append, List.map_cons, List.count_append, hct,
    List.count_cons_self] at hcount hpos
  omega

theorem unrefused_of_holds {c : Running key}
    (hc : (commandExtension options directory key).discipline.Holds c)
    (ho : (openingDiscipline options directory key).Holds c) {t : ThreadId} {call : SandboxCall}
    {result : SandboxCommandResult}
    (ht : c.threads[t]? = some ⟨call, .pure (.command result), false⟩) {command : CommandRun}
    (hcommand : command ∈ c.state.commands) (hthread : command.thread = t) :
    command.reported = false ∧ command.firstRefused = false := by
  obtain ⟨h, ⟨-, hat⟩, hreturns⟩ := hc.returned ht
  obtain ⟨φ, hcount, hopened⟩ := ho.returned ht
  obtain ⟨commandId, hpassed⟩ := hreturns result rfl
  obtain ⟨own, hown, -, hstage⟩ := hat commandId _ hpassed
  have hsound : c.state.CommandsSound := hc.1.2
  have hone : c.state.commandCount t ≤ 1 := by
    cases φ with
    | none => exact absurd rfl (hopened result rfl)
    | some opened => exact (hcount opened rfl).trans (Bool.toNat_le opened)
  cases SandboxWorld.eq_of_commandCount hone hcommand hown hthread hstage.thread
  exact ⟨hsound.passed command hown (hstage.passed false rfl), hstage.firstRefused⟩

variable (options directory) in
/-- The results are right while no refusal of a heartbeat is reported after the last check of its
command; the rest always is. -/
theorem lost_leases_respected {w : SandboxWorld key} (hw : w.Initial) {ls : List (Step key)}
    (hok : (sandboxes options directory).Along ReportsInTime (.initial w) ls) :
    (sandboxes options directory).Along (LossRespected options directory) (.initial w) ls := by
  let D := (commandExtension options directory key).discipline
  let E := openingDiscipline options directory key
  refine Machine.along_of_invariant (J := fun c => D.Holds c ∧ E.Holds c) ?_ ?_ hok ⟨?_, ?_⟩
  · rintro c l ⟨hc, ho⟩ hok
    have hlease := (commandExtension options directory key).holds_below hc
    refine ⟨writesAllowed_step hlease, fun c' lease htakes => ?_, takeOverFinal_step hlease, ?_⟩
    · obtain ⟨hrunning, hstale, -⟩ := htakes.spec hlease
      exact ⟨hrunning, hstale⟩
    · intro c' t call result hstep ht _ command hcommand hthread
      have hc' := (Discipline.holds_step hc ⟨trivial, hok⟩ hstep).1
      have ho' := (Discipline.holds_step ho trivial hstep).1
      exact unrefused_of_holds hc' ho' ht hcommand hthread
  · rintro c l c' ⟨hc, ho⟩ hok hstep
    exact ⟨(Discipline.holds_step hc ⟨trivial, hok⟩ hstep).1,
      (Discipline.holds_step ho trivial hstep).1⟩
  · refine Discipline.holds_initial ⟨hw.wellFormed, ?_, ?_, ?_⟩
    · rw [hw.commands]
      rfl
    · rw [hw.commands]
      exact fun c hc => (nomatch hc)
    · rw [hw.commands]
      exact fun c hc => (nomatch hc)
  · refine Discipline.holds_initial fun t _ => ?_
    rw [SandboxWorld.commandCount, hw.commands]
    rfl

end Claim

section Runs

private def inTime (c : Running sampleKey) (l : Step sampleKey) : Bool :=
  match c.applies l with
  | some (.settleHeartbeat commandId true (some e)) =>
    e != SandboxWorld.heartbeatRefused || c.state.commands.all fun d =>
      d.commandId != commandId || !d.passed
  | _ => true

private theorem reportsInTime_of {c : Running sampleKey} {l : Step sampleKey}
    (h : inTime c l = true) : ReportsInTime c l := by
  rintro op happlies commandId rfl d hd rfl
  simp only [inTime, happlies, bne_self_eq_false, Bool.false_or, List.all_eq_true] at h
  simpa using h d hd

/-- The build's command has run, and a heartbeat of its loop has taken the time when the build is
terminated. -/
private def losing : List (Step sampleKey) :=
  .spawn (.createBuildSandbox sampleInput) :: List.replicate 28 (.advance 0 .done) ++
    .spawn (.runBuildCommand ⟨6, ⟨1, 2, 3, .value 5, .absent, .build⟩, .install, none⟩) ::
    List.replicate 14 (.advance 1 .done) ++
    .spawn (.runScheduled 0 6 (sampleRef 'a' "local" "build:5:1")) ::
    List.replicate 3 (.advance 2 .done) ++
    [.spawn (.terminate 6 ⟨1, 2, 3, .value 5, .absent, .build⟩), .advance 3 .done, .advance 3 .done]

/-- The heartbeat is refused and reported before the last check of the command. -/
private def lostInTime : List (Step sampleKey) :=
  losing ++ [.advance 2 .done, .advance 2 .done, .advance 1 .done, .advance 1 .done,
    .advance 1 .done]

private def threw (c : Running sampleKey) (t : ThreadId) : Bool :=
  match c.threads[t]? with
  | some ⟨_, .throw e, false⟩ => e == SandboxWorld.heartbeatRefused
  | _ => false

theorem lost_command_fails :
    (sampleSandboxes.play (.initial sampleWorld) lostInTime).any (fun c => threw c 1) = true ∧
      sampleSandboxes.Along (LossRespected sampleOptions sampleDirectory) (.initial sampleWorld)
        lostInTime :=
  ⟨by decide +kernel, lost_leases_respected sampleOptions sampleDirectory sampleWorld_initial
    (Machine.Along.mono (P := fun c l => inTime c l = true) (fun _ _ => reportsInTime_of)
      (by decide +kernel))⟩

/-- The command passes its last check, then the heartbeat is refused and reported. -/
private def lostLate : List (Step sampleKey) :=
  losing ++ [.advance 1 .done, .advance 2 .done, .advance 2 .done, .advance 1 .done]

private def returned (c : Running sampleKey) (t : ThreadId) : Bool :=
  match c.threads[t]? with
  | some ⟨_, .pure (.command _), false⟩ => true
  | _ => false

theorem lost_command_returns : ¬ ∀ (key : SandboxRef → String) (options : SandboxServiceOptions)
    (directory : Directory) (w : SandboxWorld key) (ls : List (Step key)), w.Initial →
    (sandboxes options directory).Along (LossRespected options directory) (.initial w) ls := by
  intro h
  have halong := h _ sampleOptions sampleDirectory sampleWorld (lostLate ++ [.advance 1 .done])
    sampleWorld_initial
  have hrun : (sampleSandboxes.play (.initial sampleWorld) lostLate).any (fun c =>
      !returned c 1 && (sampleSandboxes.step c (.advance 1 .done)).any fun c' =>
        returned c' 1 && c'.state.commands.any fun d => d.thread == 1 && d.reported) = true := by
    decide +kernel
  obtain ⟨c, hplay, hc⟩ := (Option.any_eq_true ..).mp hrun
  obtain ⟨hbefore, hc⟩ := Bool.and_eq_true_iff.mp hc
  obtain ⟨c', hstep, hc'⟩ := (Option.any_eq_true ..).mp hc
  obtain ⟨hafter, hlost⟩ := Bool.and_eq_true_iff.mp hc'
  obtain ⟨d, hd, hreported⟩ := List.any_eq_true.mp hlost
  obtain ⟨hthread, hreported⟩ := Bool.and_eq_true_iff.mp hreported
  have hresults := ((Machine.along_append hplay).mp halong).2.1.results
  have hchanged : c.threads[1]? ≠ c'.threads[1]? := by
    intro he
    rw [returned, he, ← returned, hafter] at hbefore
    cases hbefore
  unfold returned at hafter
  split at hafter
  · rename_i call result ht
    have hunrefused := (hresults c' 1 call result hstep ht hchanged d hd (beq_iff_eq.mp hthread)).1
    rw [hunrefused] at hreported
    cases hreported
  · cases hafter

end Runs

end AppBuilder.Sandbox
