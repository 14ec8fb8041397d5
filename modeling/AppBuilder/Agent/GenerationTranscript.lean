import AppBuilder.Agent.GenerationCalls
import AppBuilder.Agent.PackageJson
import AppBuilder.Async.Protocol

/-! What a generation has asked and been answered when it ends, for any answers at all. -/
namespace AppBuilder.Agent
open Async Store

/-- A call and its answer. -/
structure Exchange where
  op : GenerationOp
  answer : generationApi.Answer op

namespace Exchange

def isRepair (exchange : Exchange) : Bool :=
  match exchange.op with
  | .repairFiles _ | .repairDependencies _ => true
  | _ => false

def isValidation (exchange : Exchange) : Bool :=
  match exchange.op with
  | .validate _ => true
  | _ => false

/-- A validation that was answered with an `INFRA_ERROR`. -/
def isInfraError : Exchange → Bool
  | ⟨.validate _, .ok validation⟩ => decide (ValidationResult.category validation = some .infraError)
  | _ => false

def isEvent (exchange : Exchange) : Bool :=
  match exchange.op with
  | .onEvent _ => true
  | _ => false

/-- `onEvent` was rejected with this error. -/
def EventFailed (error : AgentError) (exchange : Exchange) : Prop :=
  ∃ event, exchange = ⟨.onEvent event, .error error⟩

end Exchange

/-- The calls so far, in order. -/
abbrev Transcript : Type := List Exchange

/-- Nothing is assumed of the answers. -/
def transcription : Protocol generationApi Transcript where
  permits _ _ := True
  possible _ _ := True
  next transcript op answer := transcript ++ [⟨op, answer⟩]

def repairs (transcript : Transcript) : ℕ := transcript.countP Exchange.isRepair

def validations (transcript : Transcript) : ℕ := transcript.countP Exchange.isValidation

def lastValidation (transcript : Transcript) : Option Exchange :=
  (transcript.filter Exchange.isValidation).getLast?

/-- Only events follow an `INFRA_ERROR`: no repair, and no other validation. -/
def QuietAfterInfra (transcript : Transcript) : Prop :=
  transcript.Pairwise fun earlier later => earlier.isInfraError = true → later.isEvent = true

variable {transcript : Transcript}

/-- What the loop has asked so far: so many repairs and validations, the last of which is known. -/
structure Account (repaired validated : ℕ) (last : Option Exchange) (transcript : Transcript) :
    Prop where
  repairs : repairs transcript = repaired
  validations : validations transcript = validated
  last : lastValidation transcript = last
  quiet : QuietAfterInfra transcript

def NoInfraError (transcript : Transcript) : Prop :=
  ∀ exchange ∈ transcript, exchange.isInfraError = false

section Account

variable {repaired validated : ℕ} {last : Option Exchange} {exchange : Exchange}

theorem quietAfterInfra_append (h : QuietAfterInfra transcript)
    (hnext : exchange.isEvent = true ∨ NoInfraError transcript) :
    QuietAfterInfra (transcript ++ [exchange]) := by
  refine List.pairwise_append.mpr ⟨h, List.pairwise_singleton _ _, fun a ha b hb hinfra => ?_⟩
  rw [List.mem_singleton.mp hb]
  rcases hnext with hevent | hclear
  · exact hevent
  · rw [hclear a ha] at hinfra
    cases hinfra

/-- A call that neither validates nor repairs. -/
theorem Account.other (h : Account repaired validated last transcript)
    (hnext : exchange.isEvent = true ∨ NoInfraError transcript)
    (hrepair : exchange.isRepair = false) (hvalidation : exchange.isValidation = false) :
    Account repaired validated last (transcript ++ [exchange]) where
  repairs := by
    rw [Agent.repairs, List.countP_append, List.countP_singleton, hrepair]
    exact h.repairs
  validations := by
    rw [Agent.validations, List.countP_append, List.countP_singleton, hvalidation]
    exact h.validations
  last := by
    rw [lastValidation, List.filter_append, List.filter_singleton, hvalidation, cond_false,
      List.append_nil]
    exact h.last
  quiet := quietAfterInfra_append h.quiet hnext

theorem Account.repair (h : Account repaired validated last transcript)
    (hclear : NoInfraError transcript) (hrepair : exchange.isRepair = true)
    (hvalidation : exchange.isValidation = false) :
    Account (repaired + 1) validated last (transcript ++ [exchange]) where
  repairs := by
    rw [Agent.repairs, List.countP_append, List.countP_singleton, if_pos hrepair]
    exact congrArg (· + 1) h.repairs
  validations := by
    rw [Agent.validations, List.countP_append, List.countP_singleton, hvalidation]
    exact h.validations
  last := by
    rw [lastValidation, List.filter_append, List.filter_singleton, hvalidation, cond_false,
      List.append_nil]
    exact h.last
  quiet := quietAfterInfra_append h.quiet (.inr hclear)

theorem Account.validate (h : Account repaired validated last transcript)
    (hclear : NoInfraError transcript) (hrepair : exchange.isRepair = false)
    (hvalidation : exchange.isValidation = true) :
    Account repaired (validated + 1) (some exchange) (transcript ++ [exchange]) where
  repairs := by
    rw [Agent.repairs, List.countP_append, List.countP_singleton, hrepair]
    exact h.repairs
  validations := by
    rw [Agent.validations, List.countP_append, List.countP_singleton, if_pos hvalidation]
    exact congrArg (· + 1) h.validations
  last := by
    rw [lastValidation, List.filter_append, List.filter_singleton, hvalidation, cond_true,
      List.getLast?_append]
    rfl
  quiet := quietAfterInfra_append h.quiet (.inr hclear)

theorem noInfraError_append (h : NoInfraError transcript) (hinfra : exchange.isInfraError = false) :
    NoInfraError (transcript ++ [exchange]) := by
  intro e he
  rcases List.mem_append.mp he with he | he
  · exact h e he
  · exact List.mem_singleton.mp he ▸ hinfra

theorem noInfraError_last (h : Account repaired validated last transcript)
    (hclear : NoInfraError transcript) (hlast : last = some exchange) :
    exchange.isInfraError = false := by
  have hmem := List.mem_of_getLast? (h.last.trans hlast)
  exact hclear exchange (List.mem_of_mem_filter hmem)

end Account

/-- The error carries what was validated. -/
structure CarriesCandidate (error : AgentError) (files : List ProjectFile) : Prop where
  code : error.code = .validationInfraError
  candidate : ∃ packageJson summary, error.candidate = some ⟨files, packageJson, summary⟩ ∧
    HasPackageJson files packageJson ∧ packageJson.scripts = serverScripts

/-- A failed generation. Where the last validation was an `INFRA_ERROR`, the error is that of an
event that failed, or it carries the candidate. -/
def Failed (maxRepairAttempts : ℕ) (error : AgentError) (transcript : Transcript) : Prop :=
  ∃ repaired validated last, Account repaired validated last transcript ∧
    repaired ≤ maxRepairAttempts ∧ validated ≤ maxRepairAttempts + 1 ∧
    ∀ input validation, last = some ⟨.validate input, .ok validation⟩ →
      ValidationResult.status validation ≠ .passed →
      ValidationResult.category validation = some .infraError →
      (∃ exchange ∈ transcript, exchange.EventFailed error) ∨ CarriesCandidate error input.files

/-- A generation that returned: the last validation had these files, passed and was real. -/
structure Returned (maxRepairAttempts : ℕ) (result : ValidatedAgentGenerationResult)
    (transcript : Transcript) : Prop where
  account : ∃ repaired validated input,
    Account repaired validated (some ⟨.validate input, .ok result.validation⟩) transcript ∧
      repaired ≤ maxRepairAttempts ∧ validated ≤ maxRepairAttempts + 1 ∧
      input.files = result.files
  status : result.validation.status = .passed
  verification : result.validation.verification ≠ some .simulated
  packageJson : HasPackageJson result.files result.packageJson
  scripts : result.packageJson.scripts = serverScripts

section Rules

variable {α : Type} {max repaired validated : ℕ} {last : Option Exchange}
  {Q : α → Transcript → Prop}

theorem failed_of_clear {error : AgentError} (h : Account repaired validated last transcript)
    (hclear : NoInfraError transcript) (hrepaired : repaired ≤ max) (hvalidated : validated ≤ max + 1) :
    Failed max error transcript := by
  refine ⟨repaired, validated, last, h, hrepaired, hvalidated, ?_⟩
  intro input validation hlast _ hinfra
  have hnone := noInfraError_last h hclear hlast
  rw [Exchange.isInfraError, decide_eq_false_iff_not] at hnone
  exact (hnone hinfra).elim

theorem tracks_event {event : WorkerEvent} {f : Unit → Dialogue α}
    (h : Account repaired validated last transcript) (hrepaired : repaired ≤ max)
    (hvalidated : validated ≤ max + 1)
    (hf : ∀ next, Account repaired validated last next →
      (NoInfraError transcript → NoInfraError next) →
      transcription.Tracks (f ()) next Q (Failed max)) :
    transcription.Tracks ((Dialogue.onEvent event).bind f) transcript Q (Failed max) := by
  refine Protocol.tracks_step trivial (fun _ _ => ?_)
    fun error _ => ?_
  · exact hf _ (h.other (.inl rfl) rfl rfl) fun hclear => noInfraError_append hclear rfl
  · refine ⟨repaired, validated, last, h.other (.inl rfl) rfl rfl, hrepaired, hvalidated, ?_⟩
    intro _ _ _ _ _
    exact .inl ⟨_, List.mem_append_right _ (List.mem_singleton_self _), event, rfl⟩

/-- A call of the model that is no repair. -/
theorem tracks_call {op : GenerationOp} {f : op.Reply → Dialogue α}
    (hother : ∀ answer, (Exchange.mk op answer).isRepair = false ∧
      (Exchange.mk op answer).isValidation = false ∧ (Exchange.mk op answer).isInfraError = false)
    (h : Account repaired validated last transcript) (hclear : NoInfraError transcript)
    (hrepaired : repaired ≤ max) (hvalidated : validated ≤ max + 1)
    (hf : ∀ reply next, Account repaired validated last next → NoInfraError next →
      transcription.Tracks (f reply) next Q (Failed max)) :
    transcription.Tracks ((Dialogue.call op).bind f) transcript Q (Failed max) := by
  have hnext : ∀ answer, Account repaired validated last (transcript ++ [⟨op, answer⟩]) ∧
      NoInfraError (transcript ++ [⟨op, answer⟩]) := fun answer =>
    ⟨h.other (.inr hclear) (hother answer).1 (hother answer).2.1,
      noInfraError_append hclear (hother answer).2.2⟩
  exact Protocol.tracks_step trivial (fun reply _ => hf reply _ (hnext _).1 (hnext _).2)
    fun _ _ => failed_of_clear (hnext _).1 (hnext _).2 hrepaired hvalidated

theorem tracks_settle {β : Type} {r : Except OrdinaryError β} {f : β → Dialogue α}
    (h : Account repaired validated last transcript) (hclear : NoInfraError transcript)
    (hrepaired : repaired ≤ max) (hvalidated : validated ≤ max + 1)
    (hf : ∀ b, r = .ok b → transcription.Tracks (f b) transcript Q (Failed max)) :
    transcription.Tracks ((Dialogue.settle r).bind f) transcript Q (Failed max) := by
  cases r with
  | ok b => exact hf b rfl
  | error e => exact failed_of_clear h hclear hrepaired hvalidated

theorem tracks_emitFileChanges {repairAttempt : Option ℕ} {operations : List FileOperation}
    (h : Account repaired validated last transcript) (hclear : NoInfraError transcript)
    (hrepaired : repaired ≤ max) (hvalidated : validated ≤ max + 1) :
    transcription.Tracks (Dialogue.emitFileChanges repairAttempt operations) transcript
      (fun _ next => Account repaired validated last next ∧ NoInfraError next) (Failed max) := by
  have hevent : ∀ (event : WorkerEvent) (next : Transcript), Account repaired validated last next →
      NoInfraError next → transcription.Tracks (Dialogue.onEvent event) next
        (fun _ later => Account repaired validated last later ∧ NoInfraError later)
        (Failed max) := by
    intro event next hnext hclear
    have hthen : transcription.Tracks ((Dialogue.onEvent event).bind Prog.pure) next
        (fun _ later => Account repaired validated last later ∧ NoInfraError later) (Failed max) :=
      tracks_event hnext hrepaired hvalidated fun later hlater hkept => ⟨hlater, hkept hclear⟩
    exact (Protocol.tracks_bind ..).mp hthen
  exact Protocol.tracks_foldEach (fun _ _ next hnext _ => hevent _ next hnext.1 hnext.2) ⟨h, hclear⟩

theorem tracks_repair {op : GenerationOp} {f : op.Reply → Dialogue α}
    (hrepair : ∀ answer, (Exchange.mk op answer).isRepair = true ∧
      (Exchange.mk op answer).isValidation = false ∧ (Exchange.mk op answer).isInfraError = false)
    (h : Account repaired validated last transcript) (hclear : NoInfraError transcript)
    (hrepaired : repaired + 1 ≤ max) (hvalidated : validated ≤ max + 1)
    (hf : ∀ reply next, Account (repaired + 1) validated last next → NoInfraError next →
      transcription.Tracks (f reply) next Q (Failed max)) :
    transcription.Tracks ((Dialogue.call op).bind f) transcript Q (Failed max) := by
  have hnext : ∀ answer, Account (repaired + 1) validated last (transcript ++ [⟨op, answer⟩]) ∧
      NoInfraError (transcript ++ [⟨op, answer⟩]) := fun answer =>
    ⟨h.repair hclear (hrepair answer).1 (hrepair answer).2.1,
      noInfraError_append hclear (hrepair answer).2.2⟩
  exact Protocol.tracks_step trivial (fun reply _ => hf reply _ (hnext _).1 (hnext _).2)
    fun _ _ => failed_of_clear (hnext _).1 (hnext _).2 hrepaired hvalidated

/-- The call of a repair, whichever of the two it is. -/
theorem tracks_requestRepair {task : GenerationTask} {plan : AgentPlan} {st : RepairState}
    {validation : ValidationResult} {f : ModelResult GenerationResult → Dialogue α}
    (h : Account repaired validated last transcript) (hclear : NoInfraError transcript)
    (hrepaired : repaired + 1 ≤ max) (hvalidated : validated ≤ max + 1)
    (hf : ∀ reply next, Account (repaired + 1) validated last next → NoInfraError next →
      transcription.Tracks (f reply) next Q (Failed max)) :
    transcription.Tracks ((Dialogue.requestRepair task plan st validation).bind f) transcript Q
      (Failed max) := by
  by_cases hdependency : validation.category = some .dependencyError ∧
      task.hasRepairDependencies = true
  · rw [Dialogue.requestRepair_dependencies hdependency]
    exact tracks_repair (fun _ => ⟨rfl, rfl, rfl⟩) h hclear hrepaired hvalidated hf
  · rw [Dialogue.requestRepair_files hdependency]
    exact tracks_repair (fun _ => ⟨rfl, rfl, rfl⟩) h hclear hrepaired hvalidated hf

end Rules

section Generation

variable {localeCompare : String → String → Ordering} {others : ProjectContent}
  {task : GenerationTask}

theorem runAgentGeneration_tracks :
    transcription.Tracks (Dialogue.runAgentGeneration (projectContent localeCompare others) task) []
      (fun generated next => Account 0 0 none next ∧ NoInfraError next ∧
        HasPackageJson generated.files generated.packageJson ∧
        generated.packageJson.scripts = serverScripts)
      (Failed task.maxRepairAttempts) := by
  have hstart : Account 0 0 none [] := ⟨rfl, rfl, rfl, List.Pairwise.nil⟩
  have hclear : NoInfraError [] := fun _ h => nomatch h
  refine tracks_event hstart (Nat.zero_le _) (Nat.zero_le _) fun next h hkept => ?_
  have hclear := hkept hclear
  refine tracks_call (fun _ => ⟨rfl, rfl, rfl⟩) h hclear (Nat.zero_le _) (Nat.zero_le _)
    fun planned next h hclear => ?_
  refine tracks_event h (Nat.zero_le _) (Nat.zero_le _) fun next h hkept => ?_
  have hclear := hkept hclear
  refine tracks_event h (Nat.zero_le _) (Nat.zero_le _) fun next h hkept => ?_
  have hclear := hkept hclear
  refine tracks_call (fun _ => ⟨rfl, rfl, rfl⟩) h hclear (Nat.zero_le _) (Nat.zero_le _)
    fun generated next h hclear => ?_
  split
  · exact failed_of_clear h hclear (Nat.zero_le _) (Nat.zero_le _)
  · refine tracks_settle h hclear (Nat.zero_le _) (Nat.zero_le _) fun applied _ => ?_
    refine tracks_settle h hclear (Nat.zero_le _) (Nat.zero_le _) fun files hfiles => ?_
    refine (Protocol.tracks_bind ..).mpr ((tracks_emitFileChanges h hclear (Nat.zero_le _)
      (Nat.zero_le _)).mono (fun _ next hnext => ?_) fun _ _ he => he)
    exact ⟨hnext.1, hnext.2, hasPackageJson_writeServerPackageJson hfiles, rfl⟩

theorem repairProject_tracks {plan : AgentPlan} {st : RepairState} {validation : ValidationResult}
    {repaired validated : ℕ} {last : Option Exchange} {transcript : Transcript}
    (h : Account repaired validated last transcript) (hclear : NoInfraError transcript)
    (hrepaired : repaired + 1 ≤ task.maxRepairAttempts)
    (hvalidated : validated ≤ task.maxRepairAttempts + 1) :
    transcription.Tracks
      (Dialogue.repairProject (projectContent localeCompare others) task plan st validation) transcript
      (fun project next => Account (repaired + 1) validated last next ∧ NoInfraError next ∧
        HasPackageJson project.files project.packageJson ∧
        project.packageJson.scripts = serverScripts)
      (Failed task.maxRepairAttempts) := by
  refine tracks_event h (by omega) hvalidated fun next h hkept => ?_
  have hclear := hkept hclear
  refine tracks_requestRepair h hclear hrepaired hvalidated fun reply next h hclear => ?_
  refine tracks_settle h hclear hrepaired hvalidated fun applied _ => ?_
  split
  · exact failed_of_clear h hclear hrepaired hvalidated
  · refine tracks_settle h hclear hrepaired hvalidated fun files hfiles => ?_
    refine tracks_event h hrepaired hvalidated fun next h hkept => ?_
    have hclear := hkept hclear
    refine (Protocol.tracks_bind ..).mpr ((tracks_emitFileChanges h hclear hrepaired
      hvalidated).mono (fun _ next hnext => ?_) fun _ _ he => he)
    exact ⟨hnext.1, hnext.2, hasPackageJson_writeServerPackageJson hfiles, rfl⟩

/-- At the head of the loop: as many repairs and validations as attempts, and the package data is
that of the files. -/
structure AtHead (st : RepairState) (last : Option Exchange) (transcript : Transcript) : Prop where
  account : Account st.repairAttempts st.repairAttempts last transcript
  clear : NoInfraError transcript
  packageJson : HasPackageJson st.files st.packageJson
  scripts : st.packageJson.scripts = serverScripts

theorem isInfraError_validate (input : ValidateProjectInput) (validation : ValidationResult) :
    (Exchange.mk (.validate input) (.ok validation)).isInfraError =
      decide (validation.category = some .infraError) := rfl

theorem round_tracks {plan : AgentPlan} {st : RepairState} {last : Option Exchange}
    {transcript : Transcript} (hattempts : st.repairAttempts ≤ task.maxRepairAttempts)
    (h : AtHead st last transcript)
    (hagain : st.repairAttempts < task.maxRepairAttempts → ∀ st' last next,
      st'.repairAttempts = st.repairAttempts + 1 → AtHead st' last next →
      transcription.Tracks
        (Dialogue.repairLoop (projectContent localeCompare others) task plan st') next
        (Returned task.maxRepairAttempts) (Failed task.maxRepairAttempts)) :
    transcription.Tracks
      (Dialogue.repairLoop (projectContent localeCompare others) task plan st) transcript
      (Returned task.maxRepairAttempts) (Failed task.maxRepairAttempts) := by
  rw [Dialogue.repairLoop]
  refine tracks_event h.account hattempts (by omega) fun next haccount hkept => ?_
  have hclear := hkept h.clear
  have hvalidated : st.repairAttempts + 1 ≤ task.maxRepairAttempts + 1 := by omega
  refine Protocol.tracks_step trivial (fun (validation : ValidationResult) _ => ?_) fun error _ => ?_
  · have haccount : Account st.repairAttempts (st.repairAttempts + 1)
        (some ⟨.validate (Dialogue.validateInput task st), .ok validation⟩)
        (next ++ [⟨.validate (Dialogue.validateInput task st), .ok validation⟩]) :=
      haccount.validate hclear rfl rfl
    split
    · rename_i hsimulated
      refine tracks_event haccount hattempts hvalidated fun next haccount _ => ?_
      refine ⟨_, _, _, haccount, hattempts, hvalidated, fun _ _ hlast hstatus _ => ?_⟩
      cases hlast
      exact absurd hsimulated.1 hstatus
    · rename_i hreal
      split
      · rename_i hpassed
        refine tracks_event haccount hattempts hvalidated fun next haccount _ => ?_
        exact ⟨⟨_, _, _, haccount, hattempts, hvalidated, rfl⟩, hpassed,
          fun hsimulated => hreal ⟨hpassed, hsimulated⟩, h.packageJson, h.scripts⟩
      · refine tracks_event haccount hattempts hvalidated fun next haccount hkept => ?_
        split
        · refine ⟨_, _, _, haccount, hattempts, hvalidated, fun _ _ hlast _ _ => .inr ?_⟩
          cases hlast
          exact ⟨rfl, _, _, rfl, h.packageJson, h.scripts⟩
        · rename_i hinfra
          have hclear := hkept (noInfraError_append hclear
            ((isInfraError_validate _ validation).trans (decide_eq_false hinfra)))
          split
          · exact failed_of_clear haccount hclear hattempts hvalidated
          · split
            · exact failed_of_clear haccount hclear hattempts hvalidated
            · rename_i hmore
              refine (Protocol.tracks_bind ..).mpr ((repairProject_tracks haccount hclear
                (by omega) hvalidated).mono (fun project next hnext => ?_) fun _ _ he => he)
              exact hagain (by omega) _ _ next rfl ⟨hnext.1, hnext.2.1, hnext.2.2.1, hnext.2.2.2⟩
  · exact failed_of_clear (haccount.validate hclear rfl rfl) (noInfraError_append hclear rfl)
      hattempts hvalidated

theorem repairLoop_tracks {plan : AgentPlan} (remaining : ℕ) (st : RepairState)
    {last : Option Exchange} {transcript : Transcript}
    (hremaining : task.maxRepairAttempts = st.repairAttempts + remaining)
    (h : AtHead st last transcript) :
    transcription.Tracks
      (Dialogue.repairLoop (projectContent localeCompare others) task plan st) transcript
      (Returned task.maxRepairAttempts) (Failed task.maxRepairAttempts) := by
  induction remaining generalizing st last transcript with
  | zero => exact round_tracks (by omega) h fun hmore => absurd hmore (by omega)
  | succ remaining ih =>
    exact round_tracks (by omega) h fun _ st' _ _ hst h' => ih st' (by omega) h'

/-- Whatever the model client, the validator and the callback answer, the generation ends within
its bounds; what it returns is what was validated, and an `INFRA_ERROR` ends it. -/
theorem generation_transcript (localeCompare : String → String → Ordering)
    (others : ProjectContent) (task : GenerationTask) :
    transcription.Tracks
      (Dialogue.runAgentGenerationWithValidation (projectContent localeCompare others) task) []
      (Returned task.maxRepairAttempts) (Failed task.maxRepairAttempts) := by
  refine (Protocol.tracks_bind ..).mpr (runAgentGeneration_tracks.mono (fun generated next h => ?_)
    fun _ _ he => he)
  exact repairLoop_tracks task.maxRepairAttempts
    ⟨generated.files, generated.packageJson, generated.summary, generated.usage, 0, []⟩
    (Nat.zero_add _).symm ⟨h.1, h.2.1, h.2.2.1, h.2.2.2⟩

end Generation

end AppBuilder.Agent
