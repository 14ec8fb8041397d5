import AppBuilder.Sandbox.ServiceWalk

/-! `runBuildCommand` and the heartbeats of its loop keep to the conduct. -/
namespace AppBuilder.Sandbox
open Agent Async

variable {options : SandboxServiceOptions} {directory : Directory} {key : SandboxRef → String}
  {h : SandboxHistory} {commandId : ℕ}

private theorem step_tracks (op : SandboxOp) {f : op.Reply → SandboxPromise Unit}
    {Q : Unit → SandboxHistory → Prop} {X : Failure → SandboxHistory → Prop}
    (hop : Conduct options directory key h op)
    (hf : ∀ v, (conduct options directory key).Tracks (f v) (⟨op, .ok v⟩ :: h) Q X)
    (he : ∀ e, X e (⟨op, .error e⟩ :: h)) :
    (conduct options directory key).Tracks ((perform op).bind f) h Q X :=
  Protocol.tracks_step hop (fun v _ => hf v) fun e _ => he e

/-- A heartbeat leaves the command at its stage, whether it is stored or not. -/
theorem heartbeat_tracks (leaseId : ObjectId) (ref : SandboxRef) :
    (conduct options directory key).Tracks (heartbeat leaseId ref) h
      (fun _ h' => commandOf h' = commandOf h) fun _ h' => commandOf h' = commandOf h := by
  refine step_tracks (.refreshActivity ref) trivial (fun _ => ?_) fun _ => rfl
  refine step_tracks .now trivial (fun heartbeatAt => ?_) fun _ => rfl
  refine step_tracks (.heartbeatRunning leaseId ref heartbeatAt) trivial
    (fun stored => ?_) fun _ => rfl
  change (conduct options directory key).Tracks (ite _ _ _) _ _ _
  cases Option.isNone stored <;> rfl

theorem firstHeartbeat_conducted (leaseId : ObjectId) (ref : SandboxRef)
    (hs : commandOf h = some (commandId, .opened)) :
    Conducted options directory key (firstHeartbeat commandId leaseId ref) h
      fun _ h' => commandOf h' = some (commandId, .beating) := by
  refine (Protocol.tracks_bind ..).mpr ((Protocol.tracks_attempt ..).mpr ?_)
  refine (heartbeat_tracks leaseId ref).mono (fun _ h₁ h₁s => ?_) fun e h₁ h₁s => ?_
  · refine Conducted.last (.settleHeartbeat commandId false none) (h₁s.trans hs) fun _ _ => ?_
    exact if_pos (h₁s.trans hs)
  · exact Conducted.step (.settleHeartbeat commandId false (some (heartbeatFailure e)))
      (h₁s.trans hs) fun _ _ => trivial

theorem runScheduled_conducted (leaseId : ObjectId) (ref : SandboxRef) :
    Conducted options directory key (runScheduled commandId leaseId ref) h fun _ _ => True := by
  refine Conducted.step (.beginHeartbeat commandId) trivial
    fun (idle : Bool) _ => ?_
  refine Conducted.ite (fun _ => ?_) fun _ => trivial
  have hbeat : Conducted options directory key (heartbeat leaseId ref)
      (⟨.beginHeartbeat commandId, .ok idle⟩ :: h) fun _ _ => True :=
    (heartbeat_tracks leaseId ref).mono (fun _ _ _ => trivial) fun _ _ _ => trivial
  refine hbeat.attempted (fun _ h₁ _ _ => ?_) fun e h₁ _ => ?_
  · exact Conducted.last (.settleHeartbeat commandId true none) trivial fun _ _ => trivial
  · exact Conducted.last (.settleHeartbeat commandId true (some (heartbeatFailure e))) trivial
      fun _ _ => trivial

theorem throwIfAborted_conducted (signal : Option ℕ) :
    Conducted options directory key (throwIfAborted signal) h fun _ _ => True := by
  refine Conducted.step (.signalAborted signal) trivial fun reason _ => ?_
  cases reason <;> trivial

theorem throwIfCommandAborted_conducted
    (hs : commandOf h = some (commandId, .beating) ∨ ∃ b, commandOf h = some (commandId, .ran b)) :
    Conducted options directory key (throwIfCommandAborted commandId) h
      fun _ h' => h' = ⟨.commandAborted commandId, .ok none⟩ :: h := by
  refine Conducted.step (.commandAborted commandId) hs fun reason _ => ?_
  cases reason with
  | none => rfl
  | some reason => trivial

theorem runCommand_conducted (leaseId : ObjectId) (ref : SandboxRef) (command : SandboxCommand)
    (hs : commandOf h = some (commandId, .opened)) :
    Conducted options directory key (runCommand commandId leaseId ref command) h
      fun _ h' => commandOf h' = some (commandId, .passed false) := by
  refine (firstHeartbeat_conducted leaseId ref hs).andThen fun _ h₁ _ hbeating => ?_
  refine (throwIfCommandAborted_conducted (.inl hbeating)).andThen fun _ h₂ _ heq => ?_
  have hclear : commandOf h₂ = some (commandId, .clear) := by
    rw [heq, commandOf, hbeating]
  refine Conducted.step (.run commandId ref command) hclear fun result _ => ?_
  refine (throwIfCommandAborted_conducted (.inr ⟨result.timedOut, rfl⟩)).andThen
    fun _ h₃ _ heq => ?_
  refine Conducted.ite (fun _ => trivial) fun htimedOut => ?_
  have hpassed : commandOf h₃ = some (commandId, .passed result.timedOut) := by
    rw [heq]
    rfl
  simp only [Bool.not_eq_true] at htimedOut
  rw [htimedOut] at hpassed
  exact hpassed

theorem connectOrLose_conducted (lease : SandboxLease) (ref : SandboxRef) :
    Conducted options directory key (connectOrLose lease ref) h fun _ _ => True := by
  refine Conducted.tryCatch (Conducted.last (.connect ref) trivial fun _ _ => trivial)
    fun e h₁ _ => Conducted.ite (fun _ => ?_) fun _ => trivial
  exact (transition_conducted (fun ht => by cases ht) fun ht => by cases ht).andThen
    fun _ _ _ _ => trivial

theorem enterRunning_conducted (lease : SandboxLease) :
    Conducted options directory key (enterRunning lease) h fun _ _ => True := by
  refine Conducted.ite (fun _ => ?_) fun _ => trivial
  refine Conducted.step .now trivial fun lastHeartbeatAt _ => ?_
  refine (transition_conducted (fun ht => by cases ht) fun ht => by cases ht).andThen
    fun changed h₁ _ hc => ?_
  refine (orRequire_conducted hc.2).andThen fun found h₂ _ _ => ?_
  exact Conducted.ite (fun _ => trivial) fun _ => trivial

/-- A command returns a result only after its last abort check. -/
theorem runBuildCommand_conducted (input : RunBuildCommandInput) :
    Conducted options directory key (runBuildCommand options input) h
      fun _ h' => ∃ commandId, commandOf h' = some (commandId, .passed false) := by
  refine (throwIfAborted_conducted _).andThen fun _ _ _ _ => ?_
  refine (requireLease_conducted _).andThen fun lease _ _ _ => ?_
  refine (assertOwnership_conducted ..).andThen fun _ _ _ _ => ?_
  split
  · rename_i ref _ _
    refine (requireProvider_conducted _).andThen fun _ _ _ _ => ?_
    refine (connectOrLose_conducted ..).andThen fun _ _ _ _ => ?_
    refine Conducted.step (.findWorkspace lease.workspaceId) trivial fun workspace _ => ?_
    cases workspace with
    | none => trivial
    | some workspace =>
      refine Conducted.step (.fileExists ref "package-lock.json") trivial fun hasPackageLock _ => ?_
      refine Conducted.checked.andThen fun command _ _ _ => ?_
      refine (enterRunning_conducted lease).andThen fun lease h₁ _ _ => ?_
      refine Conducted.step (.openCommand lease._id _ input.signal) trivial fun commandId _ => ?_
      refine Conducted.tryFinally (runCommand_conducted lease._id _ command rfl)
        (fun result h₂ hpassed => ?_) fun h₂ => ?_
      · refine Conducted.step (.closeCommand commandId) trivial fun _ _ => ?_
        exact Conducted.last (.awaitHeartbeat commandId) trivial fun _ _ => ⟨commandId, hpassed⟩
      · refine Conducted.step (.closeCommand commandId) trivial fun _ _ => ?_
        exact Conducted.last (.awaitHeartbeat commandId) trivial fun _ _ => trivial
  · trivial

end AppBuilder.Sandbox
