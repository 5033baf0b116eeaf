import Foliqant.Common.Accounting
import Foliqant.Compiler.ConditionsSpec
import Foliqant.Compiler.GraphSafety
import Foliqant.Core.Failures
import Foliqant.Core.RunRecords

/-!
# Where the usage of a run goes

Every operation reports what it used. The usage of a run adds up what its records hold. An operation is
never counted twice. What it used is lost only when a collection step raised after some of its items ran:
the step is then recorded without their usage, and the run fails.
-/

namespace Foliqant.Core

open Accounting Exec
open Emission (after)

/-! ## Measures -/

/-- A quantity of usage that adds up. -/
structure Measure (M : Type*) [AddCommMonoid M] where
  value : Usage → M
  empty : value {} = 0
  plus : ∀ left right, value (left.plus rounded right) = value left + value right

/-- The requests to models. -/
def modelRequests : Measure ℕ := ⟨Usage.modelRequests, rfl, fun _ _ => rfl⟩

/-- The measure of requests is the member of a usage. -/
theorem modelRequests_value (usage : Usage) : modelRequests.value usage = usage.modelRequests := rfl

/-- The calls of tools. -/
def toolCalls : Measure ℕ := ⟨Usage.toolCalls, rfl, fun _ _ => rfl⟩

/-- The retries for an invalid output. -/
def outputRetries : Measure ℕ := ⟨Usage.outputRetries, rfl, fun _ _ => rfl⟩

/-- A count of tokens; an unknown count makes every total unknown. -/
def known (count : Option ℕ) : WithTop ℕ := count

/-- Counts that may be unmeasured add as numbers with a top. -/
theorem known_addMeasured (left right : Option ℕ) :
    known (addMeasured left right) = known left + known right := by
  rcases left with _ | left <;> rcases right with _ | right <;> rfl

/-- The input tokens; unmeasured ones are beyond every number. -/
def inputTokens : Measure (WithTop ℕ) where
  value usage := known usage.tokens.inputTokens
  empty := rfl
  plus left right := known_addMeasured left.tokens.inputTokens right.tokens.inputTokens

/-- The output tokens; unmeasured ones are beyond every number. -/
def outputTokens : Measure (WithTop ℕ) where
  value usage := known usage.tokens.outputTokens
  empty := rfl
  plus left right := known_addMeasured left.tokens.outputTokens right.tokens.outputTokens

namespace Measure

variable {M : Type*} [AddCommMonoid M] (φ : Measure M)

/-- What an event reports as used. -/
def amount : Event → M
  | .operation _ _ usage => φ.value usage
  | _ => 0

/-- What the operations of a run used so far. -/
def spent (w : World) : M := total φ.amount w.log

/-- What a run of a flow holds. -/
def run (run : FlowRun) : M := φ.value (run.usage.getD {})

/-- What a record holds, with all its runs. -/
def flow (record : FlowRecord) : M := φ.value (record.totalUsage.getD {})

/-- What records hold. -/
def records (records : Records) : M := (records.map fun entry => φ.flow entry.2).sum

/-- What the record of a flow holds. -/
def at_ (records : Records) (name : String) : M := ((records.lookup name).map φ.flow).getD 0

/-- Adding a usage that may be missing adds its measure. -/
theorem value_add (usage : Option Usage) (total : Usage) :
    φ.value ((usage.map (total.plus rounded)).getD total) = φ.value total +
    φ.value (usage.getD {}) := by
  cases usage with
  | none =>
    show φ.value total = φ.value total + φ.value {}
    rw [φ.empty, add_zero]
  | some usage => exact φ.plus total usage

/-- The usage of attempts has the sum of their measures. -/
theorem value_attempts (attempts : List FlowRun) (start : Usage) :
    φ.value (attempts.foldl (fun
      total attempt => (attempt.usage.map (total.plus rounded)).getD total) start) =
      φ.value start + (attempts.map φ.run).sum := by
  induction attempts generalizing start with
  | nil => exact (add_zero _).symm
  | cons attempt attempts ih =>
    rw [List.foldl_cons, ih, φ.value_add, List.map_cons, List.sum_cons, ← add_assoc]
    rfl

/-- A flow that ran is measured by its attempts. -/
theorem flow_attempts {record : FlowRecord} (ran : record.attempts ≠ []) :
    φ.flow record = (record.attempts.map φ.run).sum := by
  rw [flow, FlowRecord.totalUsage, if_neg ran, Option.getD_some, attemptsUsage,
      φ.value_attempts, φ.empty,
    zero_add]

/-- A record with one more run. -/
theorem flow_append (run last : FlowRun) (attempts : List FlowRun) (stop : Option RepeatStop) :
    φ.flow { toFlowRun := run, attempts := attempts ++ [last], stoppedBy := stop } =
      (attempts.map φ.run).sum + φ.run last := by
  rw [φ.flow_attempts (List.append_ne_nil_of_right_ne_nil attempts (List.cons_ne_nil last []))]
  simp

/-- The total usage of records is measured by the records. -/
theorem value_totalUsage (records : Records) : φ.value (totalUsage records) = φ.records records := by
  have fold (start : Usage) : φ.value (records.foldl
      (fun usage entry => ((entry.2.totalUsage).map (usage.plus rounded)).getD usage) start) =
        φ.value start + φ.records records := by
    induction records generalizing start with
    | nil => exact (add_zero _).symm
    | cons entry rest ih =>
      rw [List.foldl_cons, ih, φ.value_add, add_assoc]
      rfl
  rw [totalUsage, fold, φ.empty, zero_add]

/-- One record and the others. -/
theorem records_split (name : String) (records : Records) :
    ∃ others, φ.records records = φ.at_ records name + others ∧
      ∀ record, φ.records (Dict.set name record records) = φ.flow record + others := by
  induction records with
  | nil => exact ⟨0, (add_zero _).symm, fun record => rfl⟩
  | cons entry rest ih =>
    obtain ⟨own, record⟩ := entry
    by_cases same : own = name
    · subst same
      refine ⟨φ.records rest, ?_, fun record => ?_⟩
      · rw [at_, List.lookup_cons_self]
        rfl
      · rw [Dict.set, if_pos rfl]
        rfl
    · obtain ⟨others, whole, set⟩ := ih
      refine ⟨φ.flow record + others, ?_, fun other => ?_⟩
      · have apart : φ.at_ ((own, record) :: rest) name = φ.at_ rest name := by
          rw [at_, List.lookup_cons, beq_false_of_ne (Ne.symm same)]
          rfl
        rw [apart, add_left_comm, ← whole]
        rfl
      · rw [Dict.set, if_neg same, add_left_comm, ← set]
        rfl

/-! ## The log -/

section Log

variable {w w' : World}

/-- Nothing idle spends anything. -/
theorem spent_idle (idle : w.Idle w') : φ.spent w' = φ.spent w := by rw [spent, spent, idle.log]

/-- What events spend is added. -/
theorem spent_append (w : World) (events : List Event) :
    φ.spent (w.append events) = φ.spent w + total φ.amount events :=
  total_append φ.amount w.log events

/-- Events that report no usage. -/
theorem spent_quiet (w : World) {events : List Event} (quiet : ∀ event ∈ events, φ.amount event = 0) :
    φ.spent (w.append events) = φ.spent w := by rw [φ.spent_append, total_quiet quiet, add_zero]

/-- An event that spends nothing. -/
theorem spent_one (w : World) {event : Event} (quiet : φ.amount event = 0) :
    φ.spent (w.append [event]) = φ.spent w := φ.spent_quiet w (List.forall_mem_singleton.mpr quiet)

/-- Whatever happens, what was used before stays used. -/
theorem spent_grows {last : Option Failure} (settled : Settled w w' last) :
    ∃ more, φ.spent w' = φ.spent w + more := by
  obtain ⟨events, grows, -⟩ := settled
  exact ⟨total φ.amount events, by rw [spent, spent, grows, total_append]⟩

/-- Starting a step spends nothing. -/
theorem spent_startStep (flow step : String) (guarded : Option Bool) (w : World) :
    φ.spent (w.startStep flow step guarded) = φ.spent w := by
  refine φ.spent_quiet w (List.forall_mem_cons.mpr ⟨rfl, fun event mem => ?_⟩)
  split at mem
  · obtain rfl := List.mem_singleton.mp mem
    rfl
  · cases mem

/-- A call of the executor spends its usage. -/
theorem spent_operated (flow step : String) (usage : Usage) (w : World) :
    φ.spent (w.operated flow step usage) = φ.spent w + φ.value usage := by
  have grows := φ.spent_append { w with calls := w.calls + 1 } [.operation flow step usage]
  rwa [total_singleton] at grows

/-- Decided conditions spend nothing. -/
theorem quiet_conditions {events : List Event} (conditions : Conditions events) :
    ∀ event ∈ events, φ.amount event = 0 := by
  intro event mem
  obtain ⟨location, result, rfl⟩ := conditions event mem
  rfl

end Log

end Measure

variable {M : Type*} [AddCommMonoid M] {φ : Measure M}

/-! ## Steps -/

section Flow

variable {r : WorkflowRunner} {collection : CollectionCall → Exec Unit StepRecord} {call : FlowCall}
  {step : StepPlan}

/-- One of the steps is a collection that is recorded as failed. -/
def CollectionFailed (steps : List StepPlan) (records : List (String × StepRecord)) : Prop :=
  ∃ step ∈ steps, step.kind.isCollection = true ∧
    ∃ record, records.lookup step.name = some record ∧ record.status = .failed

/-- What the end of some steps may have lost: a collection failed, or raised while it was active. -/
def StepsLossy (steps : List StepPlan) {α : Type} : EStateM.Result Exn (FlowLocals × World) α → Prop
  | .ok _ s => s.1.status = .failed ∧ CollectionFailed steps s.1.records
  | .error _ s => ∃ step ∈ steps, step.kind.isCollection = true ∧ s.1.active = some step.name

/-- The data of a flow holds what was used since `base`. -/
def StepsAccount (φ : Measure M) (base : M) (steps : List StepPlan) {α : Type}
    (result : EStateM.Result Exn (FlowLocals × World) α) : Prop :=
  Accounted base (φ.spent (after result).2) (φ.value (after result).1.usage) (StepsLossy steps result)

/-- A collection that ended holds what its items used, unless it failed. -/
def CollectionsAccount (φ : Measure M) (collection : CollectionCall → Exec Unit StepRecord) : Prop :=
  ∀ call w record w', collection call ((), w) = .ok record ((), w') →
    Accounted (φ.spent w) (φ.spent w') (φ.value (record.usage.getD {})) (record.status = .failed)

/-- An operation books in its flow what it spends. -/
theorem operationRan_accounts {inputs : Object} {l : FlowLocals} {w : World} {base : M}
    (before : φ.spent w = base + φ.value l.usage)
    {result : EStateM.Result Exn (FlowLocals × World) Control}
    (ran : OperationRan r call step inputs l w result) :
    φ.spent (after result).2 = base + φ.value (after result).1.usage := by
  have operated (usage : Usage) : φ.spent (w.operated call.flow.name step.name usage) =
      base + φ.value (l.usage.plus rounded usage) := by
    rw [φ.spent_operated, before, φ.plus, add_assoc]
  cases ran with
  | failed called cause idle => exact (φ.spent_idle idle).trans (operated _)
  | ended called accepted idle => exact (φ.spent_idle idle).trans (operated _)

/-- What a round of the loop holds; one that goes on lost nothing. -/
theorem stepRan_accounts (settles : CollectionsSettle collection)
    (collections : CollectionsAccount φ collection)
    {l : FlowLocals} {w : World} {base : M} (before : φ.spent w = base + φ.value l.usage)
    {result : EStateM.Result Exn (FlowLocals × World) Control}
    (ran : StepRan r collection call step l w result) :
    StepsAccount φ base [step] result ∧
      ∀ s, result = .ok .next s → φ.spent s.2 = base + φ.value s.1.usage := by
  -- Everything but a collection loses nothing, however it ends.
  have whole {result : EStateM.Result Exn (FlowLocals × World) Control}
      (same : φ.spent (after result).2 = base + φ.value (after result).1.usage) :
      StepsAccount φ base [step] result ∧
        ∀ s, result = .ok .next s → φ.spent s.2 = base + φ.value s.1.usage :=
    ⟨accounted same, fun s ended => by subst ended; exact same⟩
  have idle {w' : World} (idle : w.Idle w') : φ.spent w' = base + φ.value l.usage :=
    (φ.spent_idle idle).trans before
  have begun (guarded : Option Bool) :
      φ.spent (w.startStep call.flow.name step.name guarded) = base + φ.value l.usage :=
    (φ.spent_startStep _ _ guarded w).trans before
  cases ran with
  | late => exact whole (idle (.tick w))
  | guardFailed => exact whole (idle (.tick w))
  | skipped =>
    refine whole ((φ.spent_quiet w.tick ?_).trans (idle (.tick w)))
    exact List.forall_mem_cons.mpr ⟨rfl, List.forall_mem_singleton.mpr rfl⟩
  | limit => exact whole ((φ.spent_one w.tick rfl).trans (idle (.tick w)))
  | @inputsFailed guarded => exact whole (begun guarded)
  | @operation guarded started _ _ _ _ _ _ _ ran =>
    have started_ : φ.spent (w.startStep call.flow.name step.name guarded) =
        base + φ.value (l.start step.name started).usage := begun guarded
    exact whole (operationRan_accounts started_ ran)
  | @collectionRaised guarded started inputs items flows maxItems error w' _ _ _ _ kind ran =>
    have ended := settles ⟨flows, maxItems, inputs, call.envelope, call.collectionDepth⟩
      (w.startStep call.flow.name step.name guarded)
    rw [ran] at ended
    obtain ⟨⟨last, settled⟩, -⟩ := ended
    obtain ⟨lost, grows⟩ := φ.spent_grows settled
    refine ⟨⟨lost, grows.trans ?_,
      .inr ⟨step, List.mem_singleton_self step, ?_, rfl⟩⟩, fun s ended => ?_⟩
    · rw [begun guarded]
      rfl
    · rw [kind]
      rfl
    · cases ended
  | @collectionEnded guarded started inputs items flows maxItems record w' _ _ _ _ kind ran =>
    have held := (collections _ _ record w' ran).behind (begun guarded)
    have plus : φ.value l.usage + φ.value (record.usage.getD {}) = φ.value
        (FlowLocals.collect call.stepId step.name record (l.start step.name started)).usage :=
      (φ.plus _ _).symm
    rw [plus] at held
    by_cases failed : record.status = .failed
    · refine ⟨held.mono fun _ => ⟨?_, step, List.mem_singleton_self step, ?_, record, ?_,
        failed⟩, fun s ended => ?_⟩
      · exact (if_pos (.inl failed)).trans failed
      · rw [kind]
        rfl
      · exact Dict.lookup_set_self step.name record l.records
      · rw [if_pos (.inl failed)] at ended
        cases ended
    · exact whole (held.whole failed)

/-- A failed collection of some steps is one of more steps. -/
theorem CollectionFailed.mono {steps more : List StepPlan} {records : List (String × StepRecord)}
    (h : CollectionFailed steps records) (subset : steps ⊆ more) : CollectionFailed more records := by
  obtain ⟨step, mem, failed⟩ := h
  exact ⟨step, subset mem, failed⟩

/-- The account of some steps is one of more steps. -/
theorem StepsAccount.mono {steps more : List StepPlan} {base : M} {α : Type}
    {result : EStateM.Result Exn (FlowLocals × World) α} (h : StepsAccount φ base steps result)
    (subset : steps ⊆ more) : StepsAccount φ base more result := by
  apply Accounted.mono h
  cases result with
  | ok value s =>
    rintro ⟨status, failed⟩
    exact ⟨status, failed.mono subset⟩
  | error error s =>
    rintro ⟨step, mem, active⟩
    exact ⟨step, subset mem, active⟩

/-- Steps book in their flow what they spend, except in a collection that failed. -/
theorem stepsRan_accounts (settles : CollectionsSettle collection)
    (collections : CollectionsAccount φ collection)
    {steps : List StepPlan} {l : FlowLocals} {w : World} {base : M}
    (before : φ.spent w = base + φ.value l.usage)
    {result : EStateM.Result Exn (FlowLocals × World) Unit}
    (ran : StepsRan r collection call steps l w result) : StepsAccount φ base steps result := by
  have single (step : StepPlan) (steps : List StepPlan) : [step] ⊆ step :: steps :=
    List.cons_subset_cons step (List.nil_subset steps)
  induction ran with
  | done => exact accounted before
  | @next step steps l l₁ w w₁ result ran rest ih =>
    obtain ⟨-, goesOn⟩ := stepRan_accounts settles collections before ran
    exact (ih (goesOn (l₁, w₁) rfl)).mono (List.subset_cons_self step steps)
  | @stop step steps l l₁ w w₁ ran =>
    have held := (stepRan_accounts settles collections before ran).1.mono (single step steps)
    exact held
  | @raised step steps l l₁ w w₁ error ran =>
    have held := (stepRan_accounts settles collections before ran).1.mono (single step steps)
    exact held

/-! ## Flows -/

/-- An execution of a flow holds what its steps used, unless a collection of it failed. -/
def RunsAccount (φ : Measure M) (run : FlowCall → World → (FlowRun × List DecisionIssue) × World) :
    Prop :=
  ∀ call w, Accounted (φ.spent w) (φ.spent (run call w).2) (φ.run (run call w).1.1)
    ((run call w).1.1.status = .failed ∧ CollectionFailed call.flow.steps (run call w).1.1.steps)

/-- An output that fails follows steps that did not. -/
theorem projectOutput_error {l : FlowLocals} {error : Exn}
    (output : projectOutput call l = .error error) :
    l.status ≠ .failed := by
  intro failed
  unfold projectOutput at output
  split at output
  · rw [if_pos failed] at output
    cases output
  · cases output

/-- The steps of a call are steps of its flow. -/
theorem FlowCall.steps_subset (call : FlowCall) : call.steps ⊆ call.flow.steps := by
  unfold FlowCall.steps
  cases call.stepId with
  | none => exact fun _ => id
  | some id => exact List.filter_subset_self _

/-- A run of a flow records what it spends, except in a collection that failed. -/
theorem flowRan_accounts (settles : CollectionsSettle collection)
    (collections : CollectionsAccount φ collection)
    {w w' : World} {record : FlowRun} {issues : List DecisionIssue}
    (ran : FlowRan r collection call w ((record, issues), w')) :
    Accounted (φ.spent w) (φ.spent w') (φ.run record)
      (record.status = .failed ∧ CollectionFailed call.flow.steps record.steps) := by
  have steps {started : ℚ} {result : EStateM.Result Exn (FlowLocals × World) Unit}
      (steps : StepsRan r collection call call.steps (call.init started) w.tick result) :
      StepsAccount φ (φ.spent w) call.flow.steps result := by
    have before : φ.spent w.tick = φ.spent w + φ.value (call.init started).usage := by
      have none_ : φ.value (call.init started).usage = 0 := φ.empty
      rw [φ.spent_idle (.tick w), none_, add_zero]
    exact (stepsRan_accounts settles collections before steps).mono call.steps_subset
  cases ran with
  | @finished started elapsed l w₁ body =>
    cases body with
    | finished ran output => exact (steps ran).at (φ.spent_idle (.tick w₁))
  | @failed started ended elapsed l w₁ w₂ w₃ error failure body of idle after =>
    have quiet : φ.spent w' = φ.spent w₁ := by
      rw [φ.spent_idle after, φ.spent_one w₂ rfl, φ.spent_idle idle]
    have held : φ.run ((l.fail failure ended).run elapsed) = φ.value l.usage := by
      unfold FlowLocals.fail
      cases l.active <;> rfl
    cases body with
    | outputFailed ran output =>
      have whole := (steps ran).whole fun lossy => projectOutput_error output lossy.1
      exact accounted (by rw [quiet, held]; exact whole)
    | stepsFailed ran =>
      have lost := steps ran
      refine ((Accounted.rename lost held).at quiet).mono ?_
      rintro ⟨step, mem, isCollection, active⟩
      have active : l.active = some step.name := active
      refine ⟨?_, step, mem, isCollection, ?_⟩
      · unfold FlowLocals.fail
        rw [active]
        rfl
      · unfold FlowLocals.fail
        rw [active]
        exact ⟨_, Dict.lookup_set_self _ _ _, rfl⟩

/-- Every run of a flow records what it spends when its collections do. -/
theorem executeFlowWith_accounts (settles : CollectionsSettle collection)
    (collections : CollectionsAccount φ collection) : RunsAccount φ (executeFlowWith r collection) :=
  fun call w => flowRan_accounts settles collections (executeFlowWith_ran r collection call w)

end Flow

/-! ## Repeats -/

/-- The retry flows of a plan are callable, and no flow is its own. -/
def RetriesCallable (plan : WorkflowPlan) : Prop :=
  ∀ flow ∈ plan.flows, ∀ rep retry, flow.repeatPlan = some rep → rep.retryFlow = some retry →
    retry ≠ flow.name ∧ ∃ target, plan.flow? retry = some target ∧ target.callable = true

/-- A record without runs that are kept apart holds nothing. -/
def Clean (φ : Measure M) (records : Records) (name : String) : Prop :=
  ∀ record, records.lookup name = some record → record.attempts = [] → φ.flow record = 0

/-- A collection is recorded as failed in the last run of a flow. -/
def FailedAt (plan : WorkflowPlan) (records : Records) (name : String) : Prop :=
  ∃ flow record, plan.flow? name = some flow ∧ records.lookup name = some record ∧
    CollectionFailed flow.steps record.steps

/-- What a clean record holds is in the runs that are kept apart. -/
theorem Clean.at_eq {records : Records} {name : String} (clean : Clean φ records name) :
    φ.at_ records name = ((((records.lookup name).map FlowRecord.attempts).getD []).map
      φ.run).sum := by
  unfold Measure.at_
  cases found : records.lookup name with
  | none => rfl
  | some record =>
    by_cases single : record.attempts = []
    · show φ.flow record = (record.attempts.map φ.run).sum
      rw [clean record found single, single]
      rfl
    · exact φ.flow_attempts single

/-- Whether a flow's record is clean depends on that record only. -/
theorem Clean.of_lookup {records records' : Records} {name : String} (clean : Clean φ records name)
    (same : records'.lookup name = records.lookup name) : Clean φ records' name := by
  intro record found
  rw [same] at found
  exact clean record found

/-- What is held under a name depends on that record only. -/
theorem at_of_lookup {records records' : Records} {name : String}
    (same : records'.lookup name = records.lookup name) :
    φ.at_ records' name = φ.at_ records name := by
  rw [Measure.at_, Measure.at_, same]

/-- What is held under a name that was just recorded. -/
theorem at_set_self (name : String) (record : FlowRecord) (records : Records) :
    φ.at_ (Dict.set name record records) name = φ.flow record := by
  rw [Measure.at_, Dict.lookup_set_self]
  rfl

/-- A record of attempts is clean. -/
theorem clean_set {name : String} {record : FlowRecord} (ran : record.attempts ≠ [])
    (records : Records) :
    Clean φ (Dict.set name record records) name := by
  intro own found single
  rw [Dict.lookup_set_self] at found
  obtain rfl := Option.some.inj found
  exact absurd single ran

/-- One more run of a retry flow. -/
theorem flow_setRetry {records : Records} {name : String} (clean : Clean φ records name)
    (retry : FlowRun) :
    φ.flow { toFlowRun := retry, attempts := retryRuns name records ++ [retry] } =
      φ.at_ records name + φ.run retry := by
  rw [φ.flow_append, clean.at_eq]
  rfl

section Repeat

variable {r : WorkflowRunner} {run : FlowCall → World → (FlowRun × List DecisionIssue) × World}
  {flow : FlowPlan} {rep : RepeatPlan} {scope : RepeatScope} {attempt : ℕ}
  {issues : List DecisionIssue} {records : Records} {w : World}

/-- A repeat ran its retry flow at most once, and recorded it. -/
inductive Retried (φ : Measure M) (rep : RepeatPlan) (records : Records) : Records → M → Prop
  | idle : Retried φ rep records records 0
  | ran {name : String} {retry : FlowRun} (retries : rep.retryFlow = some name) :
      Retried φ rep records (setRetry name retry records) (φ.run retry)

/-- A repeat may have lost something only when it stopped with the failure of its retry flow. -/
def RetryLossy (plan : WorkflowPlan) (rep : RepeatPlan) :
    EStateM.Result Exn (Records × World) RepeatDecision → Prop
  | .ok (.stopped .failure _ none (some _)) s =>
      ∃ name, rep.retryFlow = some name ∧ FailedAt plan s.1 name
  | _ => False

/-- The records of a repeat hold what its retry flow used. -/
def DecisionAccounts (φ : Measure M) (plan : WorkflowPlan) (rep : RepeatPlan)
    (records : Records) (w : World)
    (result : EStateM.Result Exn (Records × World) RepeatDecision) : Prop :=
  ∃ held, Retried φ rep records (after result).1 held ∧
    Accounted (φ.spent w) (φ.spent (after result).2) held (RetryLossy plan rep result)

/-- A retry run is recorded with what it spends. -/
theorem retryRun_accounts (runs : RunsAccount φ run) {retry : FlowPlan} {record : FlowRun}
    {retryIssues : List DecisionIssue} {w' : World}
    (ran : RetryRun r run flow rep scope attempt records w retry record retryIssues w') :
    Accounted (φ.spent w) (φ.spent w') (φ.run record)
      (record.status = .failed ∧
        FailedAt r.plan (setRetry retry.name record records) retry.name) := by
  obtain ⟨inputs, envelope, -, -, ended⟩ := ran.ran
  have held := runs (retryCall scope retry envelope attempt)
    (w.append [.boundary (.retryInput flow.name) records, .flowStarted retry.name .retry])
  rw [ended, φ.spent_quiet w
    (List.forall_mem_cons.mpr ⟨rfl, List.forall_mem_singleton.mpr rfl⟩)] at held
  refine held.mono fun lossy => ⟨lossy.1, retry, _, ran.known, Dict.lookup_set_self _ _ _, lossy.2⟩

/-- What the part between two attempts holds; only one that stops with a failure may lose anything. -/
theorem retryRan_accounts (runs : RunsAccount φ run) (settles : RunsSettle run)
    {result : EStateM.Result Exn (Records × World) (Option RepeatDecision)}
    (ran : RetryRan r run flow rep scope attempt issues records w result) :
    ∃ held, Retried φ rep records (after result).1 held ∧
      Accounted (φ.spent w) (φ.spent (after result).2) held
        (∃ decision s, result = .ok (some decision) s ∧ RetryLossy r.plan rep (.ok decision s)) := by
  cases ran with
  | absent => exact ⟨0, .idle, accounted (add_zero _).symm⟩
  | unknown => exact ⟨0, .idle, accounted (add_zero _).symm⟩
  | @inputFailed retry error failure w₁ name known input of idle =>
    refine ⟨φ.run (failedRetry retry failure), .ran name, accounted ?_⟩
    have nothing : φ.run (failedRetry retry failure) = 0 := φ.empty
    have quiet : φ.spent (w₁.append [.failed failure]) = φ.spent w := by
      rw [φ.spent_one w₁ rfl, φ.spent_idle idle, φ.spent_one w rfl]
    rw [nothing, add_zero]
    exact quiet
  | envelopeFailed =>
    refine ⟨0, .idle, accounted ((φ.spent_quiet w ?_).trans (add_zero _).symm)⟩
    exact List.forall_mem_cons.mpr ⟨rfl, List.forall_mem_singleton.mpr rfl⟩
  | @failed retry record retryIssues w' ran status =>
    refine ⟨φ.run record, .ran ran.name, (retryRun_accounts runs ran).mono fun lossy => ?_⟩
    obtain ⟨inputs, envelope, -, -, ended⟩ := ran.ran
    -- a failed retry flow has an error, which the decision carries: the loss shows in its records
    have consistent := (settles (retryCall scope retry envelope attempt)
      (w.append [.boundary (.retryInput flow.name) records, .flowStarted retry.name .retry])).2
    rw [ended] at consistent
    obtain ⟨failure, error⟩ := Option.isSome_iff_exists.mp (consistent.error.mp status)
    refine ⟨_, _, rfl, ?_⟩
    rw [error]
    exact ⟨retry.name, ran.name, lossy.2⟩
  | @review retry record retryIssues w' ran status =>
    refine ⟨φ.run record, .ran ran.name,
      accounted ((retryRun_accounts runs ran).whole fun lossy => ?_)⟩
    rw [status] at lossy
    cases lossy.1
  | conditionFailed ran failed =>
    exact ⟨_, .ran ran.name, accounted
      ((retryRun_accounts runs ran).whole fun lossy => failed lossy.1)⟩
  | @stop retry record retryIssues w' condition ran failed =>
    refine ⟨_, .ran ran.name, accounted ((φ.spent_one w' rfl).trans ?_)⟩
    exact (retryRun_accounts runs ran).whole fun lossy => failed lossy.1
  | @goOn retry record retryIssues w' events ran failed review continues =>
    have quiet : ∀ event ∈ events, φ.amount event = 0 := by
      rcases continues with ⟨-, rfl⟩ | ⟨_, -, -, rfl⟩
      · exact List.forall_mem_nil _
      · exact List.forall_mem_singleton.mpr rfl
    refine ⟨_, .ran ran.name, accounted ((φ.spent_quiet w' quiet).trans ?_)⟩
    exact (retryRun_accounts runs ran).whole fun lossy => failed lossy.1

/-- What is decided after an attempt spends what its retry run records. -/
theorem decisionRan_accounts (runs : RunsAccount φ run) (settles : RunsSettle run) {record : FlowRun}
    {result : EStateM.Result Exn (Records × World) RepeatDecision}
    (ran : DecisionRan r run flow rep scope record attempt issues records w result) :
    DecisionAccounts φ r.plan rep records w result := by
  -- before the retry flow runs nothing is used and no record changes
  have nothing {result : EStateM.Result Exn (Records × World) RepeatDecision}
      (same : (after result).1 = records) (quiet : φ.spent (after result).2 = φ.spent w) :
      DecisionAccounts φ r.plan rep records w result :=
    ⟨0, same ▸ .idle, accounted (quiet.trans (add_zero _).symm)⟩
  have checked (met : Bool) :
      φ.spent (w.append [.conditionEvaluated "repeat.until" met]) = φ.spent w :=
    φ.spent_one w rfl
  cases ran with
  | failure => exact nothing rfl rfl
  | review => exact nothing rfl rfl
  | untilFailed => exact nothing rfl rfl
  | untilMet => exact nothing rfl (checked true)
  | exhausted => exact nothing rfl (checked false)
  | retryRaised _ _ _ _ retry =>
    obtain ⟨held, retried, accounts⟩ := retryRan_accounts runs settles retry
    rw [checked false] at accounts
    refine ⟨held, retried, accounts.mono ?_⟩
    rintro ⟨decision, s, stopped, -⟩
    cases stopped
  | @retryStopped decision records' w' _ _ _ _ retry =>
    obtain ⟨held, retried, accounts⟩ := retryRan_accounts runs settles retry
    rw [checked false] at accounts
    refine ⟨held, retried, accounts.mono ?_⟩
    rintro ⟨own, s, stopped, lossy⟩
    cases stopped
    exact lossy
  | @nextFailed records' w₁ w₂ w₃ error failure _ _ _ _ retry next of idle =>
    obtain ⟨held, retried, accounts⟩ := retryRan_accounts runs settles retry
    rw [checked false] at accounts
    -- binding the next input uses nothing, whether it fails or not
    have bound : φ.spent w₂ = φ.spent w₁ := by
      cases next with
      | late => exact φ.spent_idle (.tick w₁)
      | failed => exact (φ.spent_one w₁.tick rfl).trans (φ.spent_idle (.tick w₁))
    refine ⟨held, retried, accounted ?_⟩
    show φ.spent (w₃.append [.failed failure]) = φ.spent w + held
    rw [φ.spent_one w₃ rfl, φ.spent_idle idle, bound]
    refine accounts.whole ?_
    rintro ⟨decision, s, stopped, -⟩
    cases stopped
  | @again records' w₁ w' inputs _ _ _ _ retry next =>
    obtain ⟨held, retried, accounts⟩ := retryRan_accounts runs settles retry
    rw [checked false] at accounts
    have bound : φ.spent w' = φ.spent w₁ := by
      cases next with
      | bound => exact (φ.spent_one w₁.tick rfl).trans (φ.spent_idle (.tick w₁))
    refine ⟨held, retried, accounted (bound.trans (accounts.whole ?_))⟩
    rintro ⟨decision, s, stopped, -⟩
    cases stopped

/-- A failed attempt stops the repeat at once. -/
theorem DecisionRan.of_failed {record : FlowRun} (failed : record.status = .failed)
    {result : EStateM.Result Exn (Records × World) RepeatDecision}
    (ran : DecisionRan r run flow rep scope record attempt issues records w result) :
    result = .ok (.stopped .failure issues none none) (records, w) := by
  cases ran with
  | failure => rfl
  | review status =>
    rw [failed] at status
    cases status
  | untilFailed unfailed => exact absurd failed unfailed
  | untilMet unfailed => exact absurd failed unfailed
  | exhausted unfailed => exact absurd failed unfailed
  | retryRaised unfailed => exact absurd failed unfailed
  | retryStopped unfailed => exact absurd failed unfailed
  | nextFailed unfailed => exact absurd failed unfailed
  | again unfailed => exact absurd failed unfailed

/-- What an attempt holds together with the decision that follows it. -/
theorem attempted_accounts (runs : RunsAccount φ run) (settles : RunsSettle run) {record : FlowRun}
    {lossy : Prop} {before : M}
    (attempted : Accounted before (φ.spent w) (φ.run record) (record.status = .failed ∧ lossy))
    {result : EStateM.Result Exn (Records × World) RepeatDecision}
    (decision : DecisionRan r run flow rep scope record attempt issues records w result) :
    ∃ held, Retried φ rep records (after result).1 held ∧
      Accounted before (φ.spent (after result).2) (φ.run record + held)
        (record.status = .failed ∧ lossy ∨ RetryLossy r.plan rep result) := by
  by_cases failed : record.status = .failed
  · obtain rfl := decision.of_failed failed
    exact ⟨0, .idle, (attempted.rename (add_zero _)).mono .inl⟩
  · obtain ⟨held, retried, accounts⟩ := decisionRan_accounts runs settles decision
    have whole := attempted.whole fun lossy => failed lossy.1
    exact ⟨held, retried, (accounts.behind whole).mono .inr⟩

end Repeat

/-! ## Collections -/

section Collection

variable {r : WorkflowRunner} {run : FlowCall → World → (FlowRun × List DecisionIssue) × World}
  {call : CollectionCall} {item : Item}

/-- What an item holds with its retry flow. -/
def Measure.itemRun (φ : Measure M) (ran : ItemRun) : M :=
  φ.flow ran.record + (ran.retry.map φ.flow).getD 0

/-- What the records of a repeat hold of its retry flow. -/
def Measure.retry (φ : Measure M) (rep : RepeatPlan) (records : Records) : M :=
  (rep.retryFlow.map (φ.at_ records)).getD 0

/-- The usage of an item is added to the collection's. -/
theorem value_addUsage (usage : Usage) (ran : ItemRun) :
    φ.value (ran.addUsage usage) = φ.value usage + φ.itemRun ran := by
  have retry : φ.value ((ran.retry.bind FlowRecord.totalUsage).getD {}) =
      (ran.retry.map φ.flow).getD 0 := by
    cases ran.retry with
    | none => exact φ.empty
    | some record => rfl
  unfold ItemRun.addUsage
  rw [φ.value_add, φ.value_add, retry, add_assoc]
  rfl

/-- The retry flow of a repeat has a clean record, also after it ran once more. -/
def RetryClean (φ : Measure M) (rep : RepeatPlan) (records : Records) : Prop :=
  ∀ name, rep.retryFlow = some name → Clean φ records name

/-- A retry run adds to what the retry flow holds, and keeps it clean. -/
theorem Retried.retry {rep : RepeatPlan} {records records' : Records} {held : M}
    (retried : Retried φ rep records records' held) (clean : RetryClean φ rep records) :
    φ.retry rep records' = φ.retry rep records + held ∧ RetryClean φ rep records' := by
  cases retried with
  | idle => exact ⟨(add_zero _).symm, clean⟩
  | @ran name retry retries =>
    have ran : retryRuns name records ++ [retry] ≠ [] :=
      List.append_ne_nil_of_right_ne_nil _ (List.cons_ne_nil retry [])
    constructor
    · rw [Measure.retry, Measure.retry, retries, Option.map_some, Option.map_some, Option.getD_some,
        Option.getD_some]
      exact (at_set_self name _ records).trans (flow_setRetry (clean name retries) retry)
    · intro other same
      obtain rfl := Option.some.inj (retries.symm.trans same)
      exact clean_set ran records

/-- Setting the record of another flow leaves that of the retry flow. -/
theorem retry_set {rep : RepeatPlan} {name : String} (apart : rep.retryFlow ≠ some name)
    (record : FlowRecord) (records : Records) :
    φ.retry rep (Dict.set name record records) = φ.retry rep records ∧
      (RetryClean φ rep records → RetryClean φ rep (Dict.set name record records)) := by
  have other {retry : String} (retries : rep.retryFlow = some retry) :
      (Dict.set name record records).lookup retry = records.lookup retry := by
    refine Dict.lookup_set_of_ne ?_ record records
    rintro rfl
    exact apart retries
  constructor
  · unfold Measure.retry
    cases retries : rep.retryFlow with
    | none => rfl
    | some retry => exact at_of_lookup (other retries)
  · exact fun clean retry retries => (clean retry retries).of_lookup (other retries)

/-- The retry flow's record holds what its measure says. -/
theorem retry_lookup (rep : RepeatPlan) (records : Records) :
    ((rep.retryFlow.bind fun name => records.lookup name).map φ.flow).getD 0 =
    φ.retry rep records := by
  unfold Measure.retry
  cases rep.retryFlow <;> rfl

/-- An item that failed, or whose retry flow did. -/
def ItemRun.Breaks (ran : ItemRun) : Prop := ran.record.status = .failed ∨ ran.failure.isSome

/-- A repeat that may have lost something ended with a failure. -/
theorem RetryLossy.failure {plan : WorkflowPlan} {rep : RepeatPlan} {stop : RepeatStop}
    {issues : List DecisionIssue} {status : Option Status} {failure : Option Failure}
    {s : Records × World}
    (lossy : RetryLossy plan rep (.ok (.stopped stop issues status failure) s)) : failure.isSome := by
  cases failure with
  | some failure => rfl
  | none =>
    cases stop <;> cases status <;> exact absurd lossy id

/-- A retry run that loses usage stops the repeat with the failed retry flow. -/
theorem RetryLossy.at {plan : WorkflowPlan} {rep : RepeatPlan} {stop : RepeatStop}
    {issues : List DecisionIssue} {status : Option Status} {failure : Option Failure}
    {s : Records × World}
    (lossy : RetryLossy plan rep (.ok (.stopped stop issues status failure) s)) :
    ∃ name, rep.retryFlow = some name ∧ FailedAt plan s.1 name := by
  cases stop <;> cases status <;> cases failure <;> first | exact lossy | exact absurd lossy id

/-- The attempts of an item record what they spend. -/
theorem attemptsRan_accounts (runs : RunsAccount φ run) (settles : RunsSettle run) {rep : RepeatPlan}
    (apart : rep.retryFlow ≠ some item.flow.name) {scope : RepeatScope} {remaining : ℕ}
    {attempts : List FlowRun} {records : Records} {inputs : Object} {w : World}
    (clean : RetryClean φ rep records) {base : M}
    (before : φ.spent w = base + ((attempts.map φ.run).sum + φ.retry rep records))
    {result : EStateM.Result Exn (Unit × World) ItemRun}
    (ran : AttemptsRan r run rep item scope remaining attempts records inputs w result)
    {ended : ItemRun} {s : Unit × World} (same : result = .ok ended s) :
    Accounted base (φ.spent s.2) (φ.itemRun ended) ended.Breaks := by
  -- The attempts with the next one, and the retry flow after the decision on it.
  have decided_ {attempts : List FlowRun} {records : Records}
      {envelope : AcceptedEnvelope} {w w₁ : World}
      {record : FlowRun} {issues : List DecisionIssue}
      {result : EStateM.Result Exn (Records × World) RepeatDecision}
        (clean : RetryClean φ rep records)
      (before : φ.spent w = base + ((attempts.map φ.run).sum + φ.retry rep records))
      (ran : run (itemCall item scope.collectionDepth envelope (attempts.length + 1))
        (w.append [.flowStarted item.flow.name .callable]) = ((record, issues), w₁))
      (decision : DecisionRan r run item.flow rep scope record (attempts.length + 1) issues
        (setAttempt item.flow.name record attempts records) w₁ result) :
      RetryClean φ rep (after result).1 ∧ Accounted base (φ.spent (after result).2)
        (((attempts ++ [record]).map φ.run).sum + φ.retry rep (after result).1)
        (record.status = .failed ∨ RetryLossy r.plan rep result) := by
    have attempted := runs (itemCall item scope.collectionDepth envelope (attempts.length + 1))
      (w.append [.flowStarted item.flow.name .callable])
    rw [ran, φ.spent_one w rfl] at attempted
    obtain ⟨held, retried, accounts⟩ := attempted_accounts runs settles attempted decision
    obtain ⟨kept, stays⟩ := @retry_set M _ φ rep item.flow.name apart
      { toFlowRun := record, attempts := attempts ++ [record] } records
    obtain ⟨grows, clean'⟩ := retried.retry (stays clean)
    have kept : φ.retry rep (setAttempt item.flow.name record attempts records) =
      φ.retry rep records := kept
    refine ⟨clean', ((accounts.behind before).rename ?_).mono (Or.imp_left And.left)⟩
    rw [grows, kept, List.map_append, List.sum_append, List.map_singleton, List.sum_singleton,
      add_add_add_comm]
  induction ran with
  | none => cases same
  | envelopeFailed => cases same
  | decisionFailed => cases same
  | @again remaining attempts records records' inputs inputs' envelope record issues
        issues' w w₁ w₂ result
      received ran decision rest ih =>
    obtain ⟨clean', accounts⟩ := decided_ clean before ran decision
    obtain ⟨kept, stays⟩ := @retry_set M _ φ rep item.flow.name apart
      { toFlowRun := record, attempts := attempts ++ [record] } records'
    have whole := accounts.whole fun lossy => lossy.elim (fun failed => ?_) id
    · refine ih (stays clean') ?_ same
      rw [kept]
      exact whole
    · have stopped := decision.of_failed failed
      cases stopped
  | @stopped remaining attempts records records' inputs envelope record issues issues'
        w w₁ w₂ stop status
      failure received ran decision =>
    obtain ⟨clean', accounts⟩ := decided_ clean before ran decision
    obtain ⟨kept, -⟩ := @retry_set M _ φ rep item.flow.name apart
      (decided record (attempts ++ [record]) (.stopped stop issues' status failure)) records'
    cases same
    refine ((accounts.rename ?_).at (φ.spent_one w₂ rfl)).mono
      (Or.imp (fun failed => ?_) RetryLossy.failure)
    · show φ.flow (decided record (attempts ++ [record]) (.stopped stop issues' status failure)) +
        _ = _
      rw [retry_lookup, kept]
      unfold decided
      rw [φ.flow_append, List.map_append, List.sum_append, List.map_singleton, List.sum_singleton]
      rfl
    · have stopped := decision.of_failed failed
      cases stopped
      exact failed

/-- An item records what it spends. -/
theorem itemRan_accounts (runs : RunsAccount φ run) (settles : RunsSettle run)
    (apart : ∀ rep, item.flow.repeatPlan = some rep → rep.retryFlow ≠ some item.flow.name) {w : World}
    {ended : ItemRun} {s : Unit × World} (ran : ItemRan r run call item w (.ok ended s)) :
    Accounted (φ.spent w) (φ.spent s.2) (φ.itemRun ended) ended.Breaks := by
  cases ran with
  | @once envelope record issues w' received single ran =>
    have held := runs (itemCall item (call.collectionDepth + 1) envelope 1)
      (w.append [.flowStarted item.flow.name .callable])
    rw [ran, φ.spent_one w rfl] at held
    exact (held.rename (add_zero _)).mono fun lossy => .inl lossy.1
  | @repeated envelope rep _ received repeats ran =>
    have clean : RetryClean φ rep [] := fun name _ record found => by cases found
    have nothing : φ.retry rep [] = 0 := by
      unfold Measure.retry
      cases rep.retryFlow <;> rfl
    have before : φ.spent w = φ.spent w + ((([] : List FlowRun).map φ.run).sum + φ.retry rep []) := by
      rw [nothing, List.map_nil, List.sum_nil, add_zero, add_zero]
    exact attemptsRan_accounts runs settles (apart rep repeats) clean before ran rfl

/-- The items of a collection record what they spend. -/
theorem itemsRan_accounts (runs : RunsAccount φ run) (settles : RunsSettle run) {usage : Usage}
    {status : Status} {items : List Item} {w : World}
    (apart : ∀ item ∈ items, ∀ rep, item.flow.repeatPlan = some rep →
      rep.retryFlow ≠ some item.flow.name)
    {base : M} (before : φ.spent w = base + φ.value usage)
    {result : EStateM.Result Exn (Unit × World) ItemsRun}
    (ran : ItemsRan r run call usage status items w result) {ended : ItemsRun} {s : Unit × World}
    (same : result = .ok ended s) :
    Accounted base (φ.spent s.2) (φ.value ended.usage) (ended.status = .failed) := by
  induction ran generalizing ended s with
  | done =>
    cases same
    exact accounted before
  | raised => cases same
  | @failed usage status item rest w w' ran ran_ fails =>
    cases same
    have held := (itemRan_accounts runs settles (apart item List.mem_cons_self) ran_).behind before
    exact (held.rename (value_addUsage usage ran)).mono fun _ => rfl
  | restRaised => cases same
  | @next usage status item rest w w₁ w' ran others ran_ fails remaining ih =>
    cases same
    have held := (itemRan_accounts runs settles (apart item List.mem_cons_self) ran_).behind before
    have whole := (held.rename (value_addUsage usage ran)).whole fails
    have held := @ih (fun item mem => apart item (List.mem_cons_of_mem _ mem)) whole
      others ((), w') rfl
    exact held

/-- A collection records what it spends. -/
theorem executeCollection_accounts (plan : RetriesCallable r.plan) (runs : RunsAccount φ run)
    (settles : RunsSettle run) : CollectionsAccount φ (executeCollection r run) := by
  intro call w record w' ended
  have ran := executeCollection_ran r run call w
  rw [ended] at ran
  cases ran with
  | @recorded raw items ran w₁ w₂ entries elapsed _ _ _ accepted idle items_ _ =>
    have apart : ∀ item ∈ items, ∀ rep, item.flow.repeatPlan = some rep →
        rep.retryFlow ≠ some item.flow.name := by
      intro item mem rep repeats retries
      obtain ⟨raw, -, known⟩ := accepted.exists_of_mem_right mem
      exact (plan item.flow (WorkflowPlan.flow?_mem known.known) rep _ repeats retries).1 rfl
    have before : φ.spent w₁ = φ.spent w + φ.value {} := by rw [φ.spent_idle idle, φ.empty, add_zero]
    exact (itemsRan_accounts runs settles apart before items_ rfl).at (φ.spent_idle (.tick w₂))

/-- Flows record what they spend at every depth of nested collections. -/
theorem executeFlowTo_accounts (plan : RetriesCallable r.plan) (depth : ℕ) :
    RunsAccount φ (executeFlowTo r depth) := by
  induction depth with
  | zero =>
    apply executeFlowWith_accounts
    · intro call w
      exact ⟨⟨none, (settled_idle (.tick w)).trans
        (settled_append _ (List.forall_mem_singleton.mpr rfl))⟩, trivial⟩
    · intro call w record w' ended
      cases ended
  | succ depth ih =>
    have settles := @executeFlowTo_settles r depth
    exact executeFlowWith_accounts (executeCollection_settles settles)
      (executeCollection_accounts plan ih settles)

/-- Every execution of a flow holds what its steps used, unless a collection of it failed. -/
theorem executeFlow_accounts (plan : RetriesCallable r.plan) : RunsAccount φ (executeFlow r) :=
  fun call w => executeFlowTo_accounts plan _ call w

end Collection

/-! ## Routed flows -/

section Routed

variable {r : WorkflowRunner} {envelope : AcceptedEnvelope} {flow : FlowPlan}

/-- The records hold everything that was used, and an exception may replace that of the active flow. -/
structure Held (φ : Measure M) (l : RunLocals) (w : World) (lossy : Prop) : Prop where
  total : Accounted 0 (φ.spent w) (φ.records l.records) lossy
  active : ∀ name, l.active = some name → Clean φ l.records name

/-- The records hold everything that was used, and callable flows may still add to theirs. -/
structure Booked (φ : Measure M) (plan : WorkflowPlan) (l : RunLocals) (w : World) (lossy : Prop) :
    Prop
    extends Held φ l w lossy where
  callable : ∀ name target, plan.flow? name = some target → target.callable = true →
    Clean φ l.records name

/-- Losses may be said more weakly. -/
theorem Held.mono {l : RunLocals} {w : World} {lossy lossy' : Prop} (h : Held φ l w lossy)
    (weaker : lossy → lossy') : Held φ l w lossy' :=
  ⟨h.total.mono weaker, h.active⟩

/-- The same records after events that report no usage. -/
theorem Held.at {l l' : RunLocals} {w w' : World} {lossy : Prop} (h : Held φ l w lossy)
    (records : l'.records = l.records) (spent : φ.spent w' = φ.spent w)
    (active : ∀ name, l'.active = some name → Clean φ l.records name) : Held φ l' w' lossy := by
  constructor
  · rw [records]
    exact h.total.at spent
  · rw [records]
    exact active

/-- Losses may be said more weakly. -/
theorem Booked.mono {l : RunLocals} {w : World} {plan : WorkflowPlan} {lossy lossy' : Prop}
    (h : Booked φ plan l w lossy) (weaker : lossy → lossy') : Booked φ plan l w lossy' :=
  ⟨h.toHeld.mono weaker, h.callable⟩

/-- What is booked depends on the records and on what was spent only. -/
theorem Booked.at {l l' : RunLocals} {w w' : World} {plan : WorkflowPlan} {lossy : Prop}
    (h : Booked φ plan l w lossy) (records : l'.records = l.records) (spent : φ.spent w' = φ.spent w)
    (active : ∀ name, l'.active = some name → Clean φ l.records name) :
    Booked φ plan l' w' lossy := by
  refine ⟨h.toHeld.at records spent active, ?_⟩
  rw [records]
  exact h.callable

/-- A record is set, and the total grows by what it holds more. -/
theorem records_set {name : String} {records : Records} {record : FlowRecord} {more : M}
    (grows : φ.flow record = φ.at_ records name + more) :
    φ.records (Dict.set name record records) = φ.records records + more := by
  obtain ⟨others, whole, set⟩ := φ.records_split name records
  rw [set, grows, whole, add_right_comm]

/-- A retry run adds to what the records hold. -/
theorem Retried.records {rep : RepeatPlan} {records records' : Records} {held : M}
    (retried : Retried φ rep records records' held) (clean : RetryClean φ rep records) :
    φ.records records' = φ.records records + held := by
  cases retried with
  | idle => exact (add_zero _).symm
  | @ran name retry retries => exact records_set (flow_setRetry (clean name retries) retry)

/-- Only the record of the retry flow changes between two attempts. -/
theorem Retried.lookup {rep : RepeatPlan} {records records' : Records} {held : M}
    (retried : Retried φ rep records records' held) {name : String}
    (apart : rep.retryFlow ≠ some name) :
    records'.lookup name = records.lookup name := by
  cases retried with
  | idle => rfl
  | @ran retry run retries =>
    refine Dict.lookup_set_of_ne ?_ _ _
    rintro rfl
    exact apart retries

/-- A routed flow may have lost something only when it stopped the routing with a failed collection. -/
def RoutedBooked (φ : Measure M) (plan : WorkflowPlan) :
    EStateM.Result Exn (RunLocals × World) Routed → Prop
  | .ok (.failed _) s => Booked φ plan s.1 s.2 (∃ name, FailedAt plan s.1.records name) ∧
      s.1.active = none
  | .ok (.boundary _ _) s => Booked φ plan s.1 s.2 False ∧ s.1.active = none
  | .error _ s => Held φ s.1 s.2 False

/-- A decided flow holds its attempts. -/
theorem flow_decided (record : FlowRun) (attempts : List FlowRun) (decision : RepeatDecision) :
    φ.flow (decided record (attempts ++ [record]) decision) = (attempts.map φ.run).sum +
    φ.run record := by
  cases decision <;> exact φ.flow_append ..

/-- Whether a flow failed depends on its record only. -/
theorem FailedAt.of_lookup {plan : WorkflowPlan} {records records' : Records} {name : String}
    (h : FailedAt plan records name) (same : records'.lookup name = records.lookup name) :
    FailedAt plan records' name := by
  obtain ⟨flow, record, known, found, failed⟩ := h
  exact ⟨flow, record, known, same.trans found, failed⟩

/-- Choosing a target books nothing. -/
theorem targetRan_booked {record : FlowRecord} {issues : List DecisionIssue}
    {l : RunLocals} {w : World}
    (idle : l.active = none) {result : EStateM.Result Exn (RunLocals × World) Routed}
    (booked : Booked φ r.plan l w False)
    (ran : TargetRan envelope flow record issues l w result) : RoutedBooked φ r.plan result := by
  have quiet {events : List Event} (conditions : Conditions events) (name : String)
      (records : Records) :
      ∀ event ∈ Event.boundary (.routes name) records :: events, φ.amount event = 0 :=
    List.forall_mem_cons.mpr ⟨rfl, φ.quiet_conditions conditions⟩
  have clean : ∀ name, l.active = some name → Clean φ l.records name := booked.active
  cases ran with
  | boundary chosen conditions =>
    refine ⟨booked.at rfl (φ.spent_quiet w ?_) clean, idle⟩
    exact List.forall_mem_append.mpr ⟨quiet conditions _ _, List.forall_mem_singleton.mpr rfl⟩
  | failed cause conditions =>
    exact booked.toHeld.at rfl (φ.spent_quiet w (quiet conditions _ _)) clean
  | misrouted cause conditions =>
    refine booked.toHeld.at rfl (φ.spent_quiet w ?_) clean
    exact List.forall_mem_append.mpr ⟨quiet conditions _ _, List.forall_mem_singleton.mpr rfl⟩

/-- A flow of the routing: it is known, and not callable. -/
structure IsRouted (plan : WorkflowPlan) (flow : FlowPlan) : Prop where
  known : plan.flow? flow.name = some flow
  routed : flow.callable = false

/-- A routed flow is no callable one. -/
theorem IsRouted.ne {plan : WorkflowPlan} (own : IsRouted plan flow) {name : String}
    {target : FlowPlan}
    (known : plan.flow? name = some target) (callable : target.callable = true) :
    name ≠ flow.name := by
  rintro rfl
  obtain rfl := Option.some.inj (own.known.symm.trans known)
  rw [own.routed] at callable
  cases callable

section Attempt

variable (plan : RetriesCallable r.plan) (own : IsRouted r.plan flow) {rep : RepeatPlan}
  (repeats : flow.repeatPlan = some rep)
include plan own repeats

/-- An attempt of a routed flow is recorded with what it used, and so is the retry flow after it. -/
theorem attempt_booked {attempts : List FlowRun} {l : RunLocals} {w w₁ : World}
    {received : AcceptedEnvelope} {record : FlowRun} {issues : List DecisionIssue}
    (booked : Booked φ r.plan l w False) (held : φ.at_ l.records flow.name = (attempts.map φ.run).sum)
    (ran : executeFlow r (routedCall flow received (attempts.length + 1)) (w.startRouted flow) =
      ((record, issues), w₁))
    {result : EStateM.Result Exn (Records × World) RepeatDecision}
    (decision : DecisionRan r (executeFlow r) flow rep { envelope := envelope } record
      (attempts.length + 1) issues (setAttempt flow.name record attempts l.records) w₁ result) :
    Accounted 0 (φ.spent (after result).2) (φ.records (after result).1)
        (record.status = .failed ∧ CollectionFailed flow.steps record.steps ∨
          RetryLossy r.plan rep result) ∧
      (∀ name target, r.plan.flow? name = some target → target.callable = true →
        Clean φ (after result).1 name) ∧
      (after result).1.lookup flow.name =
        some { toFlowRun := record, attempts := attempts ++ [record] } := by
  have attempted := @executeFlow_accounts M _ φ r plan
      (routedCall flow received (attempts.length + 1))
    (w.startRouted flow)
  have started : φ.spent (w.startRouted flow) = φ.spent w := φ.spent_one w rfl
  rw [ran, started] at attempted
  obtain ⟨more, retried, accounts⟩ :=
    attempted_accounts (executeFlow_accounts plan) executeFlow_settles attempted decision
  have before : φ.spent w = 0 + φ.records l.records := booked.total.whole id
  have apart : rep.retryFlow ≠ some flow.name := fun retries =>
    (plan flow (WorkflowPlan.flow?_mem own.known) rep _ repeats retries).1 rfl
  have others {name : String} (ne : name ≠ flow.name) :
      (setAttempt flow.name record attempts l.records).lookup name = l.records.lookup name :=
    Dict.lookup_set_of_ne ne _ _
  have clean : RetryClean φ rep (setAttempt flow.name record attempts l.records) := by
    intro name retries
    obtain ⟨ne, target, known, callable⟩ :=
      plan flow (WorkflowPlan.flow?_mem own.known) rep name repeats retries
    exact (booked.callable name target known callable).of_lookup (others ne)
  refine ⟨(accounts.behind before).rename ?_, fun name target known callable => ?_, ?_⟩
  · rw [retried.records clean, setAttempt,
        records_set (φ.flow_append record record attempts none |>.trans ?_),
      add_assoc]
    rw [held]
  · by_cases retries : rep.retryFlow = some name
    · exact (retried.retry clean).2 name retries
    · exact (booked.callable name target known callable).of_lookup
        ((retried.lookup retries).trans (others (own.ne known callable)))
  · exact (retried.lookup apart).trans (Dict.lookup_set_self _ _ _)

/-- The attempts of a routed flow are booked. -/
theorem routedAttemptsRan_booked {remaining : ℕ} {attempts : List FlowRun}
    {inputs : Object} {l : RunLocals}
    {w : World} {result : EStateM.Result Exn (RunLocals × World) Routed}
    (booked : Booked φ r.plan l w False) (clean : Clean φ l.records flow.name)
    (held : φ.at_ l.records flow.name = (attempts.map φ.run).sum)
    (ran : RoutedAttemptsRan r envelope flow rep remaining attempts inputs l w result) :
    RoutedBooked φ r.plan result := by
  -- The record that replaces that of the last attempt holds the same runs.
  have finished {attempts : List FlowRun} {record : FlowRun} {records : Records}
      (decision : RepeatDecision)
      (found : records.lookup flow.name =
        some { toFlowRun := record, attempts := attempts ++ [record] }) :
      φ.records (Dict.set flow.name (decided record (attempts ++ [record]) decision) records) =
        φ.records records := by
    refine (records_set ?_).trans (add_zero _)
    rw [flow_decided, add_zero, Measure.at_, found]
    exact (φ.flow_append ..).symm
  have callable {records : Records} (record : FlowRecord)
      (clean : ∀ name target, r.plan.flow? name = some target → target.callable = true →
        Clean φ records name) :
      ∀ name target, r.plan.flow? name = some target → target.callable = true →
        Clean φ (Dict.set flow.name record records) name := fun name target known callable =>
    (clean name target known callable).of_lookup
      (Dict.lookup_set_of_ne (own.ne known callable) record records)
  have activated {l : RunLocals} {w : World} (booked : Booked φ r.plan l w False)
      (clean : Clean φ l.records flow.name) : Booked φ r.plan (l.activate flow.name) w False := by
    refine booked.at rfl rfl fun name active => ?_
    obtain rfl := Option.some.inj active
    exact clean
  induction ran with
  | none => exact booked.toHeld.at rfl (φ.spent_one _ rfl) booked.active
  | envelopeFailed => exact (activated booked clean).toHeld
  | @decisionFailed remaining attempts inputs l received record issues records' w w₁ w₂
      error _ ran decision =>
    obtain ⟨total, callables, found⟩ := attempt_booked plan own repeats booked held ran decision
    have exact_ := total.whole fun lossy => lossy.elim (fun failed => ?_) id
    · refine ⟨accounted exact_, fun name active => ?_⟩
      obtain rfl := Option.some.inj active
      intro record' found' single
      have same := Option.some.inj (found.symm.trans found')
      subst same
      exact absurd single (List.append_ne_nil_of_right_ne_nil attempts (List.cons_ne_nil record []))
    · have stopped := decision.of_failed failed.1
      cases stopped
  | @again remaining attempts inputs inputs' l received record issues issues' records' w w₁ w₂ result
      _ ran decision rest ih =>
    obtain ⟨total, callables, found⟩ := attempt_booked plan own repeats booked held ran decision
    have exact_ := total.whole fun lossy => lossy.elim (fun failed => ?_) id
    · have ran_ : attempts ++ [record] ≠ [] :=
        List.append_ne_nil_of_right_ne_nil attempts (List.cons_ne_nil record [])
      have same := finished (.again issues' inputs') found
      refine ih ⟨⟨?_, fun name active => ?_⟩, callable _ callables⟩ (clean_set ran_ records') ?_
      · refine accounted ?_
        show φ.spent w₂ = 0 + φ.records (Dict.set flow.name _ records')
        exact exact_.trans (congrArg (0 + ·) same.symm)
      · obtain rfl := Option.some.inj active
        exact clean_set ran_ records'
      · exact (at_set_self flow.name _ records').trans (φ.flow_attempts ran_)
    · have stopped := decision.of_failed failed.1
      cases stopped
  | @failed remaining attempts inputs l received record issues issues' records' w w₁ w₂
        stop status failure
      aggregated _ ran decision aggregates fails =>
    obtain ⟨total, callables, found⟩ := attempt_booked plan own repeats booked held ran decision
    subst aggregates
    refine ⟨⟨⟨((total.rename (finished _ found)).at (φ.spent_one w₂ rfl)).mono
        ?_, fun name active => ?_⟩,
      callable _ callables⟩, rfl⟩
    · rintro (⟨-, lossy⟩ | lossy)
      · exact ⟨flow.name, flow, _, own.known, Dict.lookup_set_self _ _ _, lossy⟩
      · obtain ⟨name, retries, lossy⟩ := lossy.at
        obtain ⟨ne, -⟩ := plan flow (WorkflowPlan.flow?_mem own.known) rep name repeats retries
        exact ⟨name, lossy.of_lookup (Dict.lookup_set_of_ne ne _ records')⟩
    · cases active
  | @ended remaining attempts inputs l received record issues issues' records' w w₁ w₂
        stop status failure
      aggregated result _ ran decision aggregates fails target =>
    obtain ⟨total, callables, found⟩ := attempt_booked plan own repeats booked held ran decision
    subst aggregates
    obtain ⟨unfailed, clear⟩ := not_or.mp fails
    have exact_ := total.whole fun lossy => lossy.elim (fun failed => ?_) fun lossy =>
      clear lossy.failure
    · refine targetRan_booked rfl ⟨⟨accounted ?_, fun name active => ?_⟩, callable _ callables⟩ target
      · rw [φ.spent_one w₂ rfl]
        show φ.spent w₂ = 0 + φ.records (Dict.set flow.name _ records')
        exact exact_.trans (congrArg (0 + ·) (finished _ found).symm)
      · cases active
    · have stopped := decision.of_failed failed.1
      cases stopped
      exact unfailed failed.1

end Attempt

/-- A flow that may be entered: it is routed, and its record holds nothing yet. -/
structure Enterable (φ : Measure M) (plan : WorkflowPlan) (flow : FlowPlan) (records : Records) : Prop
    extends IsRouted plan flow where
  untouched : φ.at_ records flow.name = 0

/-- A flow that can be entered has a clean record. -/
theorem Enterable.clean {plan : WorkflowPlan} {records : Records}
    (h : Enterable φ plan flow records) :
    Clean φ records flow.name := by
  intro record found _
  have nothing := h.untouched
  rw [Measure.at_, found] at nothing
  exact nothing

/-- A routed flow is booked. -/
theorem routedRan_booked (plan : RetriesCallable r.plan) {l : RunLocals} {w : World}
    (booked : Booked φ r.plan l w False) (own : Enterable φ r.plan flow l.records)
    {result : EStateM.Result Exn (RunLocals × World) Routed}
    (ran : RoutedRan r envelope flow l w result) : RoutedBooked φ r.plan result := by
  have begun : φ.spent (w.tick.append [.boundary (.input flow.name) l.records]) = φ.spent w :=
    (φ.spent_one w.tick rfl).trans (φ.spent_idle (.tick w))
  have active : ∀ name, (l.activate flow.name).active = some name → Clean φ l.records name := by
    intro name active
    obtain rfl := Option.some.inj active
    exact own.clean
  have activated : Booked φ r.plan (l.activate flow.name)
      (w.tick.append [.boundary (.input flow.name) l.records]) False := booked.at rfl begun active
  -- The record of a flow that ran once.
  have executed {received : AcceptedEnvelope} {record : FlowRun}
      {issues : List DecisionIssue} {w' : World}
      (ran : executeFlow r (routedCall flow received 1)
        ((w.tick.append [.boundary (.input flow.name) l.records]).startRouted flow) =
          ((record, issues), w')) :
      Booked φ r.plan (l.finish flow.name { toFlowRun := record }) w'
        (record.status = .failed ∧ CollectionFailed flow.steps record.steps) := by
    have held := @executeFlow_accounts M _ φ r plan (routedCall flow received 1)
      ((w.tick.append [.boundary (.input flow.name) l.records]).startRouted flow)
    have started : φ.spent ((w.tick.append [.boundary (.input flow.name) l.records]).startRouted
        flow) =
        φ.spent w := (φ.spent_one _ rfl).trans begun
    rw [ran, started] at held
    have set : φ.records (Dict.set flow.name { toFlowRun := record } l.records) =
        φ.records l.records + φ.run record := records_set (by rw [own.untouched, zero_add]; rfl)
    refine ⟨⟨(held.behind (booked.total.whole id)).rename set, fun name active => ?_⟩,
      fun name target known callable => ?_⟩
    · cases active
    · exact (booked.callable name target known callable).of_lookup
        (Dict.lookup_set_of_ne (own.ne known callable) _ _)
  cases ran with
  | late => exact booked.toHeld.at rfl (φ.spent_idle (.tick w)) booked.active
  | inputFailed => exact activated.toHeld
  | envelopeFailed => exact activated.toHeld
  | repeated _ repeats ran =>
    have held : φ.at_ (l.activate flow.name).records flow.name =
        (([] : List FlowRun).map φ.run).sum :=
      own.untouched
    exact routedAttemptsRan_booked plan own.toIsRouted repeats activated own.clean held ran
  | @failed inputs received record issues w' _ _ _ ran fails =>
    refine ⟨(executed ran).mono fun lossy => ⟨flow.name, flow, { toFlowRun := record }, own.known,
      ?_, lossy.2⟩, rfl⟩
    exact Dict.lookup_set_self _ _ _
  | ended _ _ _ ran fails target =>
    exact targetRan_booked rfl ((executed ran).mono fun lossy => fails lossy.1) target

/-! ## Runs -/

/-- A routed flow leaves the other routed flows to be entered. -/
theorem routedRan_others {l : RunLocals} {w : World}
    {result : EStateM.Result Exn (RunLocals × World) Routed}
    (plan : RetriesCallable r.plan) (own : IsRouted r.plan flow)
    (ran : RoutedRan r envelope flow l w result)
    {other : FlowPlan} (enterable : Enterable φ r.plan other l.records)
    (ne : other.name ≠ flow.name) :
    Enterable φ r.plan other (after result).1.records := by
  refine ⟨enterable.toIsRouted, ?_⟩
  have apart : Apart flow other.name := by
    refine ⟨ne, fun rep repeats retries => ?_⟩
    obtain ⟨-, target, known, callable⟩ :=
      plan flow (WorkflowPlan.flow?_mem own.known) rep _ repeats retries
    exact enterable.ne known callable rfl
  rw [at_of_lookup ((routedRan_leaves ran).kept other.name apart)]
  exact enterable.untouched

/-- What a run holds before its last exception is recorded: one that may have lost something fails with a
failed collection in its records, and no flow is active then. -/
def RunHeld (φ : Measure M) (plan : WorkflowPlan) :
    EStateM.Result Exn (RunLocals × World) Ending → Prop
  | .ok ending s => Held φ s.1 s.2 (ending.status = .failed ∧ ∃ name,
        FailedAt plan s.1.records name) ∧
      s.1.active = none
  | .error _ s => Held φ s.1 s.2 (s.1.active = none ∧ ∃ name, FailedAt plan s.1.records name)

/-- The routing from a flow on holds what it spends. -/
theorem flowsRan_held (plan : RetriesCallable r.plan) {remaining : ℕ}
    {visited : List String} {name : String}
    {l : RunLocals} {w : World} {result : EStateM.Result Exn (RunLocals × World) Ending}
    (booked : Booked φ r.plan l w False)
    (fresh : ∀ flow, IsRouted r.plan flow → flow.name ∉ visited → Enterable φ r.plan flow l.records)
    (ran : FlowsRan r envelope remaining visited name l w result) : RunHeld φ r.plan result := by
  have ticked {l : RunLocals} {w : World} (booked : Booked φ r.plan l w False) :
      Booked φ r.plan l w.tick False := booked.at rfl (φ.spent_idle (.tick w)) booked.active
  have entered {visited : List String} {name : String} {flow : FlowPlan} {l : RunLocals}
      (enters : Enters r visited name flow)
      (fresh : ∀ flow, IsRouted r.plan flow → flow.name ∉ visited →
        Enterable φ r.plan flow l.records) :
      Enterable φ r.plan flow l.records := by
    have own : IsRouted r.plan flow :=
      ⟨by rw [WorkflowPlan.flow?_name enters.known]; exact enters.known, enters.routed⟩
    refine fresh flow own ?_
    rw [WorkflowPlan.flow?_name enters.known]
    exact enters.fresh
  induction ran with
  | late => exact (ticked booked).toHeld.mono False.elim
  | @misrouted remaining visited name l w =>
    exact (booked.toHeld.at rfl ((φ.spent_one w.tick rfl).trans (φ.spent_idle (.tick w)))
      booked.active).mono False.elim
  | raised enters ran =>
    have held : Held φ _ _ False := routedRan_booked plan (ticked booked) (entered enters fresh) ran
    exact held.mono False.elim
  | failed enters ran =>
    obtain ⟨held, none_⟩ := routedRan_booked plan (ticked booked) (entered enters fresh) ran
    exact ⟨held.toHeld.mono fun lossy => ⟨rfl, lossy⟩, none_⟩
  | @ended _ _ _ _ l l' w w' target transition enters ran =>
    obtain ⟨held, none_⟩ := routedRan_booked plan (ticked booked) (entered enters fresh) ran
    have taken : Held φ (l'.take transition) w' False := ⟨held.total, held.active⟩
    exact ⟨taken.mono False.elim, none_⟩
  | @next remaining visited name next flow l l' w w' target transition result enters
      ran flow_ rest ih =>
    have own := entered enters fresh
    obtain ⟨held, -⟩ := routedRan_booked plan (ticked booked) own ran
    refine ih (held.at rfl rfl held.active) fun other routed unseen => ?_
    obtain ⟨ne, unvisited⟩ := not_or.mp fun seen => unseen (List.mem_cons.mpr seen)
    rw [← WorkflowPlan.flow?_name enters.known] at ne
    exact routedRan_others plan own.toIsRouted ran (fresh other routed unvisited) ne

/-- Choosing the first flow spends nothing. -/
theorem startRan_quiet {l : RunLocals} {w : World}
    {result : EStateM.Result Exn (RunLocals × World) StartRecord}
    (ran : StartRan r l w result) : φ.spent (after result).2 = φ.spent w ∧ (after result).1 = l := by
  have quiet {events : List Event} (conditions : Conditions events) {last : Event}
      (none_ : φ.amount last = 0) :
      ∀ event ∈ events ++ [last], φ.amount event = 0 :=
    List.forall_mem_append.mpr ⟨φ.quiet_conditions conditions, List.forall_mem_singleton.mpr none_⟩
  cases ran with
  | direct => exact ⟨φ.spent_one w rfl, rfl⟩
  | routed _ _ _ conditions => exact ⟨φ.spent_quiet w (quiet conditions rfl), rfl⟩
  | failed _ conditions => exact ⟨φ.spent_quiet w (φ.quiet_conditions conditions), rfl⟩
  | misrouted _ _ conditions => exact ⟨φ.spent_quiet w (quiet conditions rfl), rfl⟩

/-- A run of one flow, or of one step, is booked in its record. -/
theorem aloneRan_held (plan : RetriesCallable r.plan) {name : String} {stepId : Option String}
    {l : RunLocals} {w : World} (booked : Booked φ r.plan l w False)
    (untouched : ∀ name, φ.at_ l.records name = 0)
    {result : EStateM.Result Exn (RunLocals × World) Ending}
    (ran : AloneRan r envelope name stepId l w result) : RunHeld φ r.plan result := by
  cases ran with
  | late => exact (booked.toHeld.at rfl (φ.spent_idle (.tick w)) booked.active).mono False.elim
  | unknown =>
    exact (booked.toHeld.at rfl ((φ.spent_one w.tick rfl).trans (φ.spent_idle (.tick w)))
      booked.active).mono False.elim
  | @ran flow record issues w' known ran =>
    have held := @executeFlow_accounts M _ φ r plan (aloneCall flow envelope stepId)
      (w.tick.append [.flowStarted name (aloneCall flow envelope stepId).role])
    rw [ran, φ.spent_one w.tick rfl, φ.spent_idle (.tick w)] at held
    have set : φ.records (Dict.set name { toFlowRun := record } l.records) =
        φ.records l.records + φ.run record := records_set (by rw [untouched, zero_add]; rfl)
    refine ⟨⟨((held.behind (booked.total.whole id)).rename set).mono fun lossy => ⟨?_, name, flow,
      { toFlowRun := record }, known, Dict.lookup_set_self _ _ _,
        lossy.2⟩, fun name active => ?_⟩, rfl⟩
    · unfold FlowRun.ending
      rw [if_pos lossy.1]
    · cases active

/-- The output spends nothing. -/
theorem outputRan_held {ending : Ending} {l : RunLocals} {w : World}
    {result : EStateM.Result Exn (RunLocals × World) Ending}
    (before : RunHeld φ r.plan (.ok ending (l, w)))
    (ran : OutputRan r envelope ending l w result) : RunHeld φ r.plan result := by
  obtain ⟨held, idle⟩ := before
  cases ran with
  | unchanged => exact ⟨held, idle⟩
  | bound => exact ⟨held.at rfl (φ.spent_one w rfl) held.active, idle⟩
  | failed unfailed =>
    exact (held.at rfl (φ.spent_one w rfl) held.active).mono fun lossy => absurd lossy.1 unfailed

/-- What a run does for its target is held in its records. -/
theorem targetBody_held (plan : RetriesCallable r.plan) {target : RunTarget}
    {l : RunLocals} {w : World}
    (booked : Booked φ r.plan l w False) (untouched : ∀ name, φ.at_ l.records name = 0)
    {result : EStateM.Result Exn (RunLocals × World) Ending}
    (ran : TargetBody r envelope l w target result) : RunHeld φ r.plan result := by
  have routed {first : StartRecord} {l₁ : RunLocals} {w₁ : World}
      {flows : EStateM.Result Exn (RunLocals × World) Ending}
        (start : StartRan r l w (.ok first (l₁, w₁)))
      (routing : FlowsRan r envelope r.plan.flows.length [] first.flow
          { l₁ with start := some first } w₁
        flows) : RunHeld φ r.plan flows := by
    obtain ⟨quiet, same⟩ := @startRan_quiet M _ φ r l w _ start
    have same : l₁ = l := same
    subst same
    have begun : Booked φ r.plan { l₁ with start := some first } w₁ False :=
      booked.at rfl quiet booked.active
    exact flowsRan_held plan begun (fun flow own _ => ⟨own, untouched flow.name⟩) routing
  cases ran with
  | startFailed start =>
    obtain ⟨quiet, same⟩ := @startRan_quiet M _ φ r l w _ start
    have same : _ = l := same
    subst same
    exact (booked.toHeld.at rfl quiet booked.active).mono False.elim
  | routingFailed start flows => exact routed start flows
  | routed start flows output => exact outputRan_held (routed start flows) output
  | flow ran => exact aloneRan_held plan booked untouched ran
  | step ran => exact aloneRan_held plan booked untouched ran

/-- A failure of the run keeps what its records hold. -/
theorem bodyRan_held (plan : RetriesCallable r.plan) {target : RunTarget} {l : RunLocals} {w : World}
    (booked : Booked φ r.plan l w False) (untouched : ∀ name, φ.at_ l.records name = 0)
    {result : EStateM.Result Exn (RunLocals × World) Ending}
    (ran : BodyRan r envelope target l w result) : RunHeld φ r.plan result := by
  cases ran with
  | raised body => exact targetBody_held plan booked untouched body
  | @late ending l' w' body =>
    obtain ⟨held, idle⟩ := targetBody_held plan booked untouched body
    exact (held.at rfl (φ.spent_idle (.tick w')) held.active).mono fun lossy => ⟨idle, lossy.2⟩
  | @ended ending l' w' body =>
    obtain ⟨held, idle⟩ := targetBody_held plan booked untouched body
    exact ⟨held.at rfl (φ.spent_idle (.tick w')) held.active, idle⟩

/-- Before a run the records hold nothing. -/
theorem startLocals_empty (r : WorkflowRunner) (target : RunTarget) (name : String) :
    φ.at_ (startLocals r target).records name = 0 := by
  unfold Measure.at_
  cases found : (startLocals r target).records.lookup name with
  | none => rfl
  | some record =>
    obtain ⟨flow, -, same⟩ := List.mem_map.mp (Dict.mem_of_mem_ofList (Dict.mem_of_lookup found))
    obtain rfl := (Prod.mk.inj same).2
    exact φ.empty

/-- At the start everything is booked. -/
theorem startLocals_booked (r : WorkflowRunner) (target : RunTarget) :
    Booked φ r.plan (startLocals r target) {} False := by
  have clean (name : String) : Clean φ (startLocals r target).records name := by
    intro record found _
    have nothing := @startLocals_empty M _ φ r target name
    rw [Measure.at_, found] at nothing
    exact nothing
  refine ⟨⟨accounted ?_, fun name _ => clean name⟩, fun name _ _ _ => clean name⟩
  have nothing : φ.records (startLocals r target).records = 0 := by
    apply List.sum_eq_zero
    intro held mem
    obtain ⟨entry, known, rfl⟩ := List.mem_map.mp mem
    obtain ⟨flow, -, rfl⟩ := List.mem_map.mp (Dict.mem_of_mem_ofList known)
    exact φ.empty
  rw [nothing, add_zero]
  rfl

/-- An exception replaces the record of the active flow by one that holds the same runs. -/
theorem interrupted_held (failure : Failure) {l : RunLocals} {w : World} {lossy : Prop}
    (held : Held φ l w lossy) :
    φ.records (interrupted r failure l).records = φ.records l.records ∧
      (l.active = none → (interrupted r failure l).records = l.records) := by
  unfold interrupted
  cases active : l.active with
  | none => exact ⟨rfl, fun _ => rfl⟩
  | some name =>
    refine ⟨(records_set ?_).trans (add_zero _), fun none_ => absurd none_ (Option.some_ne_none name)⟩
    rw [add_zero, (held.active name active).at_eq]
    by_cases single : ((l.records.lookup name).map FlowRecord.attempts).getD [] = []
    · rw [single]
      exact φ.empty
    · exact φ.flow_attempts single

end Routed

variable {r : WorkflowRunner} {declared : FlowPlan → Option (List String)}
  {retryOf : List (String × String)}

/-- The compiler lets only callable flows be retry flows. -/
theorem retriesCallable (repeats : Compiler.validateRepeats r.plan declared = .ok retryOf) :
    RetriesCallable r.plan := by
  have owners := Compiler.validateRepeats_spec repeats
  intro flow mem rep retry repeats retries
  obtain ⟨ne, target, known, callable, -⟩ :=
    owners.accepted _ (owners.owns flow mem rep retry repeats retries)
  exact ⟨ne, target, known, callable⟩

/-- The usage of a run is what its operations used, each of them counted at most once. Something is lost only
in a failed run, whose records have a failed collection step. -/
theorem run_countsUsage (φ : Measure M)
    (repeats : Compiler.validateRepeats r.plan declared = .ok retryOf)
    (envelope : AcceptedEnvelope) (target : RunTarget) :
    ∃ lost, total φ.amount (run r envelope target).2.log =
    φ.value (run r envelope target).1.usage + lost ∧
      (lost = 0 ∨ (run r envelope target).1.status = .failed ∧
        ∃ name, FailedAt r.plan (run r envelope target).1.flows name) := by
  have plan := retriesCallable repeats
  have ran := run_ran r envelope target
  generalize run r envelope target = result at ran
  cases ran with
  | @ended ending l w body =>
    obtain ⟨⟨⟨lost, same, either⟩, -⟩, -⟩ :=
      bodyRan_held plan (@startLocals_booked M _ φ r target) (startLocals_empty r target) body
    refine ⟨lost, ?_, either⟩
    show φ.spent w = φ.value (totalUsage l.records) + lost
    rw [φ.value_totalUsage]
    exact same.trans (congrArg (· + lost) (zero_add _))
  | @raised error failure l w w' body of idle =>
    have held := bodyRan_held plan (@startLocals_booked M _ φ r target)
      (startLocals_empty r target) body
    obtain ⟨kept, unchanged⟩ := @interrupted_held M _ φ r failure l w _ held
    obtain ⟨⟨lost, same, either⟩, -⟩ := held
    refine ⟨lost, ?_, either.imp_right fun lossy => ⟨rfl, ?_⟩⟩
    · show φ.spent (w'.append [.failed failure]) =
        φ.value (totalUsage (interrupted r failure l).records) + lost
      rw [φ.value_totalUsage, φ.spent_one w' rfl, φ.spent_idle idle, kept]
      exact same.trans (congrArg (· + lost) (zero_add _))
    · obtain ⟨idle, name, failed⟩ := lossy
      exact ⟨name, failed.of_lookup (congrArg (List.lookup name) (unchanged idle))⟩

/-- Every operation sends one model request. -/
def spendingServices : Services :=
  { exampleServices with
    execute := fun _ _ _ context =>
      (.returned { result := some .null }, { context.budget with models := [{ model := "m" }] }) }

/-- A runner whose steps each spend one request. -/
def spendingRunner : WorkflowRunner := { Compiler.intakeRunner with services := spendingServices }

/-- A repeat whose condition cannot be evaluated. -/
def brokenRepeat : RepeatPlan where
  maxAttempts := 2
  two_le := refineRepeat.two_le
  untilCondition := .leaf
    { source := .pointer Compiler.longPointer.val none, operator := .present, operand := .bool true }

/-- A flow whose repeat fails in its own condition. -/
def brokenItem : FlowPlan where
  name := "item"
  steps := [exampleStep]
  callable := true
  repeatPlan := some brokenRepeat
  nodup := exampleFlow.nodup
  called := Compiler.intake_called

/-- The two flows have different names. -/
theorem lossy_flows : ([Compiler.checkFlow, brokenItem].map FlowPlan.name).Nodup := by decide

/-- A plan with a flow that loses what it spends. -/
def lossyPlan : WorkflowPlan where
  name := "lossy"
  revision := "1"
  start := .flow "check"
  flows := [Compiler.checkFlow, brokenItem]
  nodup := lossy_flows

/-- A runner of that plan. -/
def lossyRunner : WorkflowRunner := { spendingRunner with plan := lossyPlan }

/-- Without a loss everything is held. -/
theorem whole_of_safe {whole held lost : M} {lossy : Prop} (same : whole = held + lost)
    (either : lost = 0 ∨ lossy) (safe : ¬ lossy) : whole = held := by
  rw [same, either.resolve_right safe, add_zero]

/-- Where nothing is held everything is lost. -/
theorem lost_of_empty {whole held lost : M} (same : whole = held + lost) (empty : held = 0) :
    lost = whole := by
  rw [same, empty, zero_add]

/-- The five requests of the intake are all counted. That of an item is lost when the condition of its repeat
raises. -/
theorem spending_countsUsage :
    (total modelRequests.amount (run spendingRunner exampleEnvelope .workflow).2.log = 5 ∧
      (run spendingRunner exampleEnvelope .workflow).1.usage.modelRequests = 5) ∧
      ∃ lost, total modelRequests.amount (run lossyRunner exampleEnvelope .workflow).2.log =
        modelRequests.value (run lossyRunner exampleEnvelope .workflow).1.usage +
        lost ∧ lost = 1 := by
  constructor
  · obtain ⟨lost, same, either⟩ :=
        run_countsUsage (r := spendingRunner) modelRequests Compiler.intake_repeats
      exampleEnvelope .workflow
    have status : (run spendingRunner exampleEnvelope .workflow).1.status ≠ .failed := by
      decide +kernel
    have held : (run spendingRunner exampleEnvelope .workflow).1.usage.modelRequests = 5 := by
      decide +kernel
    have whole := whole_of_safe same either fun lossy => status lossy.1
    exact ⟨whole.trans ((modelRequests_value _).trans held), held⟩
  · have accepted : Compiler.validateRepeats lossyRunner.plan (fun _ => none) = .ok [] := rfl
    obtain ⟨lost, same, -⟩ := run_countsUsage (r := lossyRunner) modelRequests accepted
      exampleEnvelope .workflow
    have used : total modelRequests.amount (run lossyRunner exampleEnvelope .workflow).2.log = 1 := by
      decide +kernel
    have held : (run lossyRunner exampleEnvelope .workflow).1.usage.modelRequests = 0 := by
      decide +kernel
    exact ⟨lost, same, (lost_of_empty same ((modelRequests_value _).trans held)).trans used⟩

end Foliqant.Core
