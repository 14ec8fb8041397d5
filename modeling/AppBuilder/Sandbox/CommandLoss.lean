import AppBuilder.Sandbox.LeaseWrites

/-! A command whose heartbeat was refused and reported does not return a result. -/
namespace AppBuilder.Sandbox
open Agent Async

variable {options : SandboxServiceOptions} {directory : Directory} {key : SandboxRef → String}

/-- The same command, at the same point of its way. -/
structure CommandRun.SameProgress (c c' : CommandRun) : Prop where
  commandId : c'.commandId = c.commandId
  thread : c'.thread = c.thread
  firstRefused : c'.firstRefused = c.firstRefused
  ran : c'.ran = c.ran
  passed : c'.passed = c.passed

theorem CommandRun.SameProgress.refl (c : CommandRun) : c.SameProgress c :=
  ⟨rfl, rfl, rfl, rfl, rfl⟩

/-- What the stage of a call says of its command. -/
structure StageHolds (t : ThreadId) (stage : CommandStage) (c : CommandRun) : Prop where
  thread : c.thread = t
  firstRefused : c.firstRefused = false
  ran : ∀ timedOut, stage = .ran timedOut → c.ran = !timedOut
  passed : ∀ timedOut, stage = .passed timedOut → c.passed = !timedOut

theorem StageHolds.same {t : ThreadId} {stage : CommandStage} {c c' : CommandRun}
    (h : StageHolds t stage c) (hs : c.SameProgress c') : StageHolds t stage c' where
  thread := hs.thread.trans h.thread
  firstRefused := hs.firstRefused.trans h.firstRefused
  ran timedOut hstage := hs.ran.trans (h.ran timedOut hstage)
  passed timedOut hstage := hs.passed.trans (h.passed timedOut hstage)

namespace SandboxWorld

variable {w w' : SandboxWorld key} {t : ThreadId} {op : SandboxOp} {h : SandboxHistory}

/-- What holds of the commands at all times. -/
structure CommandsSound (w : SandboxWorld key) : Prop where
  ids : w.commands.map (fun c => c.commandId) = List.range w.commands.length
  aborted : ∀ c ∈ w.commands, c.reported = true → c.aborted.isSome = true
  passed : ∀ c ∈ w.commands, c.passed = true → c.reported = false

/-- The command of a call is at the stage that the call has reached. -/
def CommandAt (t : ThreadId) (h : SandboxHistory) (w : SandboxWorld key) : Prop :=
  ∀ commandId stage, commandOf h = some (commandId, stage) →
    ∃ c ∈ w.commands, c.commandId = commandId ∧ StageHolds t stage c

/-- The commands of the other calls are where they were. -/
def KeepsCommands (m : Option ThreadId) (w w' : SandboxWorld key) : Prop :=
  ∀ c ∈ w.commands, m ≠ some c.thread → ∃ c' ∈ w'.commands, c.SameProgress c'

theorem CommandsSound.command? (hw : w.CommandsSound) {c : CommandRun} (hc : c ∈ w.commands) :
    w.command? c.commandId = some c := by
  have hnodup : (w.commands.map fun c => c.commandId).Nodup := hw.ids ▸ List.nodup_range
  obtain ⟨as, bs, heq⟩ := List.append_of_mem hc
  rw [heq, List.map_append, List.map_cons, List.nodup_append] at hnodup
  have hnone : as.find? (fun command => command.commandId == c.commandId) = none := by
    refine List.find?_eq_none.mpr fun d hd => ?_
    have hne := hnodup.2.2 d.commandId (List.mem_map_of_mem hd) c.commandId List.mem_cons_self
    simpa using hne
  rw [SandboxWorld.command?, heq, List.find?_append, hnone, Option.none_or]
  simp

theorem mem_modifyCommand {commandId : ℕ} {f : CommandRun → CommandRun} {c : CommandRun} :
    c ∈ (w.modifyCommand commandId f).commands ↔
      ∃ d ∈ w.commands, (if d.commandId == commandId then f d else d) = c := List.mem_map

/-- A change of one command that keeps its place and what was reported of it. -/
structure Harmless (w : SandboxWorld key) (commandId : ℕ) (f : CommandRun → CommandRun) : Prop where
  sameId : ∀ c ∈ w.commands, c.commandId = commandId → (f c).commandId = c.commandId
  aborted : ∀ c ∈ w.commands, c.commandId = commandId → (f c).reported = true →
    (f c).aborted.isSome = true
  passed : ∀ c ∈ w.commands, c.commandId = commandId → (f c).passed = true →
    (f c).reported = false

theorem CommandsSound.modify {commandId : ℕ} {f : CommandRun → CommandRun}
    (hw : w.CommandsSound) (hf : w.Harmless commandId f) :
    (w.modifyCommand commandId f).CommandsSound where
  ids := by
    rw [modifyCommand, List.length_map, ← hw.ids, List.map_map]
    refine List.map_congr_left fun c hc => ?_
    by_cases hid : c.commandId = commandId
    · simp [hid, hf.sameId c hc hid]
    · simp [hid]
  aborted c hc hreported := by
    obtain ⟨d, hd, rfl⟩ := mem_modifyCommand.mp hc
    split_ifs at hreported ⊢ with hid
    · exact hf.aborted d hd (beq_iff_eq.mp hid) hreported
    · exact hw.aborted d hd hreported
  passed c hc hpassed := by
    obtain ⟨d, hd, rfl⟩ := mem_modifyCommand.mp hc
    split_ifs at hpassed ⊢ with hid
    · exact hf.passed d hd (beq_iff_eq.mp hid) hpassed
    · exact hw.passed d hd hpassed

/-- A change of one command of the call itself, or of nothing that matters, keeps the others. -/
theorem keepsCommands_modify {commandId : ℕ} {f : CommandRun → CommandRun}
    (hf : ∀ c ∈ w.commands, c.commandId = commandId → c.thread ≠ t → c.SameProgress (f c)) :
    KeepsCommands (some t) w (w.modifyCommand commandId f) := by
  intro c hc hne
  refine ⟨_, mem_modifyCommand.mpr ⟨c, hc, rfl⟩, ?_⟩
  split_ifs with hid
  · exact hf c hc (beq_iff_eq.mp hid) fun he => hne (congrArg some he.symm)
  · exact .refl c

theorem CommandAt.modify {commandId : ℕ} {f : CommandRun → CommandRun} (ha : w.CommandAt t h)
    (hf : ∀ c ∈ w.commands, c.commandId = commandId → c.SameProgress (f c)) :
    (w.modifyCommand commandId f).CommandAt t h := by
  intro id stage hs
  obtain ⟨c, hc, rfl, hstage⟩ := ha id stage hs
  refine ⟨_, mem_modifyCommand.mpr ⟨c, hc, rfl⟩, ?_⟩
  split_ifs with hid
  · have hsame := hf c hc (beq_iff_eq.mp hid)
    exact ⟨hsame.commandId, hstage.same hsame⟩
  · exact ⟨rfl, hstage⟩

variable (directory) in
/-- The operations that have nothing to do with commands. -/
theorem exec_commands (hop : ∀ commandId ref command, op ≠ .run commandId ref command)
    (hop' : op.inMemory = false ∨ op = .now ∨ (∃ workspaceId, op = .unlock workspaceId) ∨
      (∃ signal, op = .signalAborted signal) ∨ ∃ commandId, op = .awaitHeartbeat commandId) :
    (w.exec directory t op).2.commands = w.commands := by
  cases op with
  | run commandId ref command => exact absurd rfl (hop commandId ref command)
  | transition | bindExternalId | clearExternalId | claimProvisioning | heartbeatRunning
  | claimStaleRunning =>
    simp only [exec]
    rw [updateLease_eq]
  | createLease record =>
    simp only [exec, createLease]
    split_ifs <;> rfl
  | lock workspaceId =>
    simp only [exec]
    split_ifs <;> rfl
  | assertHeld workspaceId =>
    simp only [exec]
    split_ifs <;> rfl
  | inspect ref =>
    simp only [exec]
    split <;> rfl
  | destroy ref =>
    simp only [exec]
    split <;> rfl
  | openCommand | commandAborted | closeCommand | beginHeartbeat | settleHeartbeat =>
    simp [SandboxOp.inMemory] at hop'
  | _ => rfl

theorem CommandsSound.of_eq (hw : w.CommandsSound) (heq : w'.commands = w.commands) :
    w'.CommandsSound :=
  ⟨by rw [heq]; exact hw.ids, by rw [heq]; exact hw.aborted, by rw [heq]; exact hw.passed⟩

theorem CommandAt.of_eq (ha : w.CommandAt t h) (heq : w'.commands = w.commands) :
    w'.CommandAt t h := by
  intro commandId stage hs
  rw [heq]
  exact ha commandId stage hs

theorem KeepsCommands.of_eq {m : Option ThreadId} (heq : w'.commands = w.commands) :
    KeepsCommands m w w' := by
  intro c hc _
  rw [heq]
  exact ⟨c, hc, .refl c⟩

/-- A change of all commands that none of them notices. -/
structure Unnoticed (f : CommandRun → CommandRun) : Prop where
  same : ∀ c : CommandRun, c.SameProgress (f c)
  reported : ∀ c, (f c).reported = c.reported
  aborted : ∀ c, c.aborted.isSome = true → (f c).aborted.isSome = true

theorem CommandsSound.of_map {f : CommandRun → CommandRun} (hw : w.CommandsSound)
    (hf : Unnoticed f) (heq : w'.commands = w.commands.map f) : w'.CommandsSound where
  ids := by
    rw [heq, List.length_map, ← hw.ids, List.map_map]
    exact List.map_congr_left fun c _ => (hf.same c).commandId
  aborted c hc hreported := by
    rw [heq] at hc
    obtain ⟨d, hd, rfl⟩ := List.mem_map.mp hc
    rw [hf.reported] at hreported
    exact hf.aborted d (hw.aborted d hd hreported)
  passed c hc hpassed := by
    rw [heq] at hc
    obtain ⟨d, hd, rfl⟩ := List.mem_map.mp hc
    rw [(hf.same d).passed] at hpassed
    rw [hf.reported]
    exact hw.passed d hd hpassed

theorem KeepsCommands.of_map {m : Option ThreadId} {f : CommandRun → CommandRun}
    (hf : Unnoticed f) (heq : w'.commands = w.commands.map f) : KeepsCommands m w w' := by
  intro c hc _
  rw [heq]
  exact ⟨f c, List.mem_map_of_mem hc, hf.same c⟩

theorem unnoticed_close (p : CommandRun → Bool) :
    Unnoticed fun c => if p c then { c with closed := true } else c := by
  constructor
  · intro c
    split_ifs <;> exact ⟨rfl, rfl, rfl, rfl, rfl⟩
  · intro c
    split_ifs <;> rfl
  · intro c hc
    split_ifs <;> exact hc

theorem unnoticed_abort (p : CommandRun → Bool) (reason : Failure) :
    Unnoticed fun c => if p c then c.abort reason else c := by
  constructor
  · intro c
    split_ifs <;> exact ⟨rfl, rfl, rfl, rfl, rfl⟩
  · intro c
    split_ifs <;> rfl
  · intro c hc
    split_ifs
    · simp [CommandRun.abort]
    · exact hc

theorem CommandAt.mono {h' : SandboxHistory} (ha : w.CommandAt t h)
    (hh : ∀ x, commandOf h' = some x → commandOf h = some x) : w.CommandAt t h' :=
  fun commandId stage hs => ha commandId stage (hh _ hs)

theorem commandOf_error {e : Failure} (hop : op.mayFail e = true) (x : ℕ × CommandStage)
    (hx : commandOf (⟨op, .error e⟩ :: h) = some x) : commandOf h = some x := by
  cases op with
  | run commandId ref command => cases hx
  | openCommand | commandAborted | closeCommand | beginHeartbeat | settleHeartbeat =>
    simp [SandboxOp.mayFail, SandboxOp.inMemory] at hop
  | _ => exact hx

/-- What one operation does to the commands. -/
structure Commanded (t : ThreadId) (h' : SandboxHistory) (w w' : SandboxWorld key) : Prop where
  sound : w'.CommandsSound
  stage : w'.CommandAt t h'
  others : KeepsCommands (some t) w w'

theorem Commanded.of_eq {h' : SandboxHistory} (hw : w.CommandsSound) (ha : w.CommandAt t h)
    (heq : w'.commands = w.commands) (hh : ∀ x, commandOf h' = some x → commandOf h = some x) :
    Commanded t h' w w' :=
  ⟨hw.of_eq heq, (ha.of_eq heq).mono hh, .of_eq heq⟩

/-- A change that only the loop of the command makes. -/
theorem Commanded.loop {h' : SandboxHistory} {commandId : ℕ} {f : CommandRun → CommandRun}
    (hw : w.CommandsSound) (ha : w.CommandAt t h) (hf : w.Harmless commandId f)
    (hsame : ∀ c : CommandRun, c.SameProgress (f c))
    (hh : ∀ x, commandOf h' = some x → commandOf h = some x) (heq : w'.commands = (w.modifyCommand commandId f).commands) : Commanded t h' w w' := by
  refine ⟨(hw.modify hf).of_eq heq, ((ha.modify fun c _ _ => hsame c).of_eq heq).mono hh, ?_⟩
  have hkeeps := @keepsCommands_modify _ w t commandId f fun c _ _ _ => hsame c
  intro c hc hne
  rw [heq]
  exact hkeeps c hc hne

/-- A change of the call's own command, which takes it to the stage of the new history. -/
theorem Commanded.own {h' : SandboxHistory} {commandId : ℕ} {stage : CommandStage}
    {f : CommandRun → CommandRun} (hw : w.CommandsSound) (ha : w.CommandAt t h)
    (hs : commandOf h = some (commandId, stage)) (hf : w.Harmless commandId f)
    (hnext : ∀ c ∈ w.commands, c.commandId = commandId → StageHolds t stage c →
      ∀ x, commandOf h' = some x → x.1 = commandId ∧ StageHolds t x.2 (f c))
    (heq : w'.commands = (w.modifyCommand commandId f).commands) : Commanded t h' w w' := by
  obtain ⟨own, hown, rfl, hstage⟩ := ha commandId stage hs
  have hmine : ∀ c ∈ w.commands, c.commandId = own.commandId → c = own := by
    intro c hc he
    have hsame := hw.command? hc
    rw [he, hw.command? hown] at hsame
    exact (Option.some.inj hsame).symm
  refine ⟨(hw.modify hf).of_eq heq, fun id next hx => ?_, fun c hc hne => ?_⟩
  · obtain ⟨rfl, hholds⟩ := hnext own hown rfl hstage (id, next) hx
    refine ⟨f own, ?_, hf.sameId own hown rfl, hholds⟩
    rw [heq]
    exact mem_modifyCommand.mpr ⟨own, hown, if_pos (beq_self_eq_true _)⟩
  · rw [heq]
    refine keepsCommands_modify (fun d hd he hthread => ?_) c hc hne
    exact absurd (hmine d hd he ▸ hstage.thread) hthread

/-- No heartbeat of a loop is refused and reported after its command has passed the last check. -/
def NotLate (w : SandboxWorld key) (op : SandboxOp) : Prop :=
  ∀ commandId, op = .settleHeartbeat commandId true (some heartbeatRefused) →
    ∀ c ∈ w.commands, c.commandId = commandId → c.passed = false

section Exec

variable (directory)

theorem commanded_open (leaseId : ObjectId) (ref : SandboxRef) (signal : Option ℕ)
    (hw : w.CommandsSound) :
    Commanded t (⟨.openCommand leaseId ref signal, (w.exec directory t
      (.openCommand leaseId ref signal)).1⟩ :: h) w
      (w.exec directory t (.openCommand leaseId ref signal)).2 := by
  constructor
  · constructor
    · simp [exec, hw.ids, List.range_succ]
    · intro c hc hreported
      simp only [exec, List.mem_append, List.mem_singleton] at hc
      rcases hc with hc | rfl
      · exact hw.aborted c hc hreported
      · cases hreported
    · intro c hc hpassed
      simp only [exec, List.mem_append, List.mem_singleton] at hc
      rcases hc with hc | rfl
      · exact hw.passed c hc hpassed
      · cases hpassed
  · intro commandId stage hs
    cases hs
    refine ⟨_, List.mem_append_right _ (List.mem_singleton_self _), rfl, rfl, rfl, ?_, ?_⟩
    · intro timedOut hstage
      cases hstage
    · intro timedOut hstage
      cases hstage
  · intro c hc _
    exact ⟨c, List.mem_append_left _ hc, .refl c⟩

theorem commanded_first (commandId : ℕ) (failure : Option Failure) (hw : w.CommandsSound)
    (ha : w.CommandAt t h) (hs : commandOf h = some (commandId, .opened)) :
    Commanded t (⟨.settleHeartbeat commandId false failure, (w.exec directory t
      (.settleHeartbeat commandId false failure)).1⟩ :: h) w
      (w.exec directory t (.settleHeartbeat commandId false failure)).2 := by
  cases failure with
  | none =>
    refine .own hw ha hs (f := fun c => { c with inFlight := false })
      ⟨fun _ _ _ => rfl, fun c hc _ => hw.aborted c hc, fun c hc _ => hw.passed c hc⟩ ?_ rfl
    intro c hc he hstage x hx
    rw [commandOf, if_pos hs] at hx
    cases hx
    refine ⟨rfl, hstage.thread, hstage.firstRefused, ?_, ?_⟩
    · intro timedOut hx
      cases hx
    · intro timedOut hx
      cases hx
  | some e =>
    refine .own hw ha hs (f := fun c => { c with
      inFlight := false, firstRefused := c.firstRefused || e == heartbeatRefused })
      ⟨fun _ _ _ => rfl, fun c hc _ => hw.aborted c hc, fun c hc _ => hw.passed c hc⟩ ?_ rfl
    intro c hc he hstage x hx
    cases hx

theorem commanded_scheduled (commandId : ℕ) (failure : Option Failure) (hw : w.CommandsSound)
    (ha : w.CommandAt t h) (hlate : w.NotLate (.settleHeartbeat commandId true failure)) :
    Commanded t (⟨.settleHeartbeat commandId true failure, (w.exec directory t
      (.settleHeartbeat commandId true failure)).1⟩ :: h) w
      (w.exec directory t (.settleHeartbeat commandId true failure)).2 := by
  cases failure with
  | none =>
    exact .loop hw ha (f := fun c => { c with inFlight := false })
      ⟨fun _ _ _ => rfl, fun c hc _ => hw.aborted c hc, fun c hc _ => hw.passed c hc⟩
      (fun c => ⟨rfl, rfl, rfl, rfl, rfl⟩) (fun x hx => hx) rfl
  | some e =>
    refine .loop hw ha (f := fun c => { c.abort e with
      inFlight := false, reported := c.reported || e == heartbeatRefused }) ⟨fun _ _ _ => rfl, fun c hc _ _ => ?_, fun c hc he hpassed => ?_⟩
      (fun c => ⟨rfl, rfl, rfl, rfl, rfl⟩) (fun x hx => hx) rfl
    · simp only [CommandRun.abort]
      cases c.aborted <;> rfl
    · have hc' : c.passed = true := hpassed
      by_cases hrefused : e = heartbeatRefused
      · subst hrefused
        rw [hlate commandId rfl c hc he] at hc'
        cases hc'
      · simpa [CommandRun.abort, hrefused] using hw.passed c hc hc'

theorem commanded_check (commandId : ℕ) (hw : w.CommandsSound) (ha : w.CommandAt t h)
    (hs : commandOf h = some (commandId, .beating) ∨ ∃ b, commandOf h = some (commandId, .ran b)) :
    Commanded t (⟨.commandAborted commandId, (w.exec directory t (.commandAborted commandId)).1⟩ ::
      h) w (w.exec directory t (.commandAborted commandId)).2 := by
  obtain ⟨stage, hstage, hcases⟩ : ∃ stage, commandOf h = some (commandId, stage) ∧
      (stage = .beating ∨ ∃ b, stage = .ran b) := by
    rcases hs with hs | ⟨b, hs⟩
    · exact ⟨_, hs, .inl rfl⟩
    · exact ⟨_, hs, .inr ⟨b, rfl⟩⟩
  refine .own hw ha hstage (f := fun c => { c with passed := c.ran && c.aborted.isNone })
    ⟨fun _ _ _ => rfl, fun c hc _ => hw.aborted c hc, fun c hc _ hpassed => ?_⟩ ?_ rfl
  · have haborted := (Bool.and_eq_true_iff.mp hpassed).2
    by_contra hreported
    have hsome := hw.aborted c hc (by simpa using hreported)
    rw [Option.isSome_iff_ne_none] at hsome
    exact hsome (Option.isNone_iff_eq_none.mp haborted)
  · intro c hc he hholds x hx
    have hanswer : (w.exec directory t (.commandAborted commandId)).1 = .ok c.aborted := by
      rw [exec, ← he, hw.command? hc]
      rfl
    rw [hanswer] at hx
    cases haborted : c.aborted with
    | some reason =>
      rw [haborted] at hx
      cases hx
    | none =>
      rw [haborted, commandOf, hstage] at hx
      rcases hcases with rfl | ⟨b, rfl⟩
      · cases hx
        refine ⟨rfl, hholds.thread, hholds.firstRefused, ?_, ?_⟩
        · intro timedOut hx
          cases hx
        · intro timedOut hx
          cases hx
      · cases hx
        refine ⟨rfl, hholds.thread, hholds.firstRefused, ?_, ?_⟩
        · intro timedOut hx
          cases hx
        · intro timedOut hx
          cases hx
          simp [hholds.ran b rfl]

theorem commanded_run (commandId : ℕ) (ref : SandboxRef) (command : SandboxCommand)
    (hw : w.CommandsSound) (ha : w.CommandAt t h) (hs : commandOf h = some (commandId, .clear))
    {h' : SandboxHistory} (hh : ∀ x, commandOf h' = some x →
      x = (commandId, .ran (w.providers.run ref command).timedOut)) :
    Commanded t h' w (w.exec directory t (.run commandId ref command)).2 := by
  refine .own hw ha hs (f := fun c => { c with ran := !(w.providers.run ref command).timedOut })
    ⟨fun _ _ _ => rfl, fun c hc _ => hw.aborted c hc, fun c hc _ => hw.passed c hc⟩ ?_ rfl
  intro c hc he hholds x hx
  cases hh x hx
  refine ⟨rfl, hholds.thread, hholds.firstRefused, ?_, ?_⟩
  · intro timedOut hx
    cases hx
    rfl
  · intro timedOut hx
    cases hx

theorem commanded_begin (commandId : ℕ) (hw : w.CommandsSound) (ha : w.CommandAt t h) :
    Commanded t (⟨.beginHeartbeat commandId, (w.exec directory t (.beginHeartbeat commandId)).1⟩ ::
      h) w (w.exec directory t (.beginHeartbeat commandId)).2 := by
  simp only [exec]
  split_ifs
  · exact .loop hw ha (f := fun c => { c with inFlight := true })
      ⟨fun _ _ _ => rfl, fun c hc _ => hw.aborted c hc, fun c hc _ => hw.passed c hc⟩
      (fun c => ⟨rfl, rfl, rfl, rfl, rfl⟩) (fun x hx => hx) rfl
  · exact .of_eq hw ha rfl fun x hx => hx

theorem commanded_close (commandId : ℕ) (hw : w.CommandsSound) (ha : w.CommandAt t h) :
    Commanded t (⟨.closeCommand commandId, (w.exec directory t (.closeCommand commandId)).1⟩ ::
      h) w (w.exec directory t (.closeCommand commandId)).2 :=
  .loop hw ha (f := fun c => { c with signal := none, closed := true })
    ⟨fun _ _ _ => rfl, fun c hc _ => hw.aborted c hc, fun c hc _ => hw.passed c hc⟩
    (fun _ => ⟨rfl, rfl, rfl, rfl, rfl⟩) (fun _ hx => hx) rfl

/-- An operation that has happened, and whose answer arrives. -/
theorem commanded_done {options : SandboxServiceOptions} (hw : w.CommandsSound)
    (ha : w.CommandAt t h) (hc : Conduct options directory key h op) (hlate : w.NotLate op) :
    Commanded t (⟨op, (w.exec directory t op).1⟩ :: h) w (w.exec directory t op).2 := by
  cases op with
  | openCommand leaseId ref signal => exact commanded_open directory leaseId ref signal hw
  | commandAborted commandId => exact commanded_check directory commandId hw ha hc
  | closeCommand commandId => exact commanded_close directory commandId hw ha
  | beginHeartbeat commandId => exact commanded_begin directory commandId hw ha
  | settleHeartbeat commandId scheduled failure =>
    cases scheduled with
    | false => exact commanded_first directory commandId failure hw ha hc
    | true => exact commanded_scheduled directory commandId failure hw ha hlate
  | run commandId ref command =>
    refine commanded_run directory commandId ref command hw ha hc fun x hx => ?_
    cases hx
    rfl
  | now | unlock | signalAborted | awaitHeartbeat =>
    refine .of_eq hw ha (exec_commands directory (fun _ _ _ he => nomatch he) ?_) fun x hx => hx
    simp
  | _ =>
    refine .of_eq hw ha (exec_commands directory (fun _ _ _ he => nomatch he) (.inl rfl))
      fun x hx => hx

/-- An operation whose answer is lost. -/
theorem commanded_unacknowledged {options : SandboxServiceOptions} (hw : w.CommandsSound)
    (ha : w.CommandAt t h) (hc : Conduct options directory key h op) {e : Failure}
    (hop : op.mayFail e = true) :
    Commanded t (⟨op, .error e⟩ :: h) w (w.exec directory t op).2 := by
  by_cases hrun : ∃ commandId ref command, op = .run commandId ref command
  · obtain ⟨commandId, ref, command, rfl⟩ := hrun
    refine commanded_run directory commandId ref command hw ha hc fun x hx => ?_
    cases hx
  · refine .of_eq hw ha (exec_commands directory ?_ (.inl ?_)) fun x hx => commandOf_error hop x hx
    · intro commandId ref command he
      exact hrun ⟨commandId, ref, command, he⟩
    · cases op <;> first | rfl | cases hop

end Exec

end SandboxWorld

/-- The step reports no refusal of a heartbeat after the last check of its command. -/
def ReportsInTime (c : Running key) (l : Step key) : Prop :=
  ∀ op, c.applies l = some op → c.state.NotLate op

section Invariant

variable (options : SandboxServiceOptions) (directory : Directory) (key : SandboxRef → String)

open SandboxWorld in
def commandExtension : Extension (leaseDiscipline options directory key) where
  ok c l := ReportsInTime c l
  shared _ w := w.CommandsSound
  own t _ h w := w.CommandAt t h
  moves m w w' := KeepsCommands m w w'
  spawn n call w _ hw _ _ := ⟨hw, fun _ _ hs => (nomatch hs), .of_eq rfl⟩
  advance c t o call op next h ht hok hallows _ _ hc _ _ _ hw ha := by
    have hp : c.pending t = some op := by simp [Config.pending, ht, Prog.pending]
    cases o with
    | done =>
      have hdone := commanded_done directory hw ha hc (hok op hp)
      exact ⟨hdone.sound, hdone.stage, hdone.others⟩
    | refused e => exact ⟨hw, ha.mono fun x hx => commandOf_error hallows x hx, .of_eq rfl⟩
    | unacknowledged e =>
      have hlost := commanded_unacknowledged directory hw ha hc hallows
      exact ⟨hlost.sound, hlost.stage, hlost.others⟩
  crash _ c t call p h _ _ _ _ _ hw _ := by
    have hclose := unnoticed_close fun c => c.thread == t
    exact ⟨hw.of_map hclose rfl, fun _ _ hs => (nomatch hs), .of_map hclose rfl⟩
  act c a w _ ha _ _ hw := by
    cases a with
    | abortSignal signal reason =>
      cases Option.some.inj ha
      have habort := unnoticed_abort (fun c => c.signal == some signal) reason
      exact ⟨hw.of_map habort rfl, .of_map habort rfl⟩
    | elapse | change =>
      cases Option.some.inj ha
      exact ⟨hw.of_eq rfl, .of_eq rfl⟩
  stable _ _ _ _ u _ h _ _ _ _ _ hm hu _ _ ha := by
    intro commandId stage hs
    obtain ⟨c, hc, rfl, hstage⟩ := ha commandId stage hs
    obtain ⟨c', hc', hsame⟩ := hm c hc (hstage.thread ▸ hu)
    exact ⟨c', hc', hsame.commandId, hstage.same hsame⟩

end Invariant

end AppBuilder.Sandbox
