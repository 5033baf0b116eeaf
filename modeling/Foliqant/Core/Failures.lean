import Foliqant.Common.Aftermath
import Foliqant.Common.Emission
import Foliqant.Core.RunBehavior

/-!
# What a technical failure does to a run

Once a failure is recorded, the run only records further failures and stopped repeats: no operation, no
condition, no boundary and no route follows. The error of a run, of a flow and of a step is the failure
that was recorded last in it, and a record is failed exactly when it has an error.
-/

namespace Foliqant.Core

open Aftermath Emission

/-! ## Logs -/

/-- The failure that an event records. -/
def Event.failure : Event → Option Failure
  | .failed failure => some failure
  | _ => none

/-- What may follow a failure: another record of it, or of the repeat that it stopped. -/
def Event.Follows (event : Event) : Prop :=
  (∃ failure, event = .failed failure) ∨ ∃ stop, event = .repeatStopped stop

/-- A part of a run whose log is sealed. -/
def Settled (w w' : World) (last : Option Failure) : Prop :=
  ∃ events, w'.log = w.log ++ events ∧ Sealed Event.failure Event.Follows events last

section Settled

variable {w w' w'' : World} {last : Option Failure}

/-- Events that are no failures. -/
theorem settled_append (w : World) {events : List Event}
    (quiet : ∀ event ∈ events, event.failure = none) :
    Settled w (w.append events) none :=
  ⟨events, rfl, sealed_quiet quiet⟩

/-- Nothing idle is a failure. -/
theorem settled_idle (idle : w.Idle w') : Settled w w' none :=
  ⟨[], by rw [List.append_nil]; exact idle.log, sealed_quiet (List.forall_mem_nil _)⟩

/-- Nothing happened. -/
theorem settled_refl (w : World) : Settled w w none := settled_idle (.refl w)

/-- What comes after a stretch without failures decides. -/
theorem Settled.trans (first : Settled w w' none) (rest : Settled w' w'' last) :
    Settled w w'' last := by
  obtain ⟨early, grows, first⟩ := first
  obtain ⟨late, grows', rest⟩ := rest
  exact ⟨early ++ late, by rw [grows', grows, List.append_assoc], first.append rest⟩

/-- Nothing idle changes the last failure. -/
theorem Settled.idle (h : Settled w w' last) (idle : w'.Idle w'') : Settled w w'' last := by
  obtain ⟨events, grows, sealed_⟩ := h
  exact ⟨events, by rw [idle.log, grows], sealed_⟩

/-- A failure may be recorded after anything. -/
theorem Settled.fails (h : Settled w w' last) (failure : Failure) :
    Settled w (w'.append [.failed failure]) (some failure) := by
  obtain ⟨events, grows, sealed_⟩ := h
  have both : Sealed Event.failure Event.Follows (events ++ [.failed failure]) (some failure) :=
    sealed_.then (List.forall_mem_singleton.mpr (.inl ⟨failure, rfl⟩)) rfl
  exact ⟨events ++ [.failed failure], by rw [World.append_log, grows, List.append_assoc], both⟩

/-- A repeat may be recorded as stopped after anything. -/
theorem Settled.stops (h : Settled w w' last) (stop : RepeatStop) :
    Settled w (w'.append [.repeatStopped stop]) last := by
  obtain ⟨events, grows, sealed_⟩ := h
  have both : Sealed Event.failure Event.Follows (events ++ [.repeatStopped stop]) last :=
    sealed_.then (List.forall_mem_singleton.mpr (.inr ⟨stop, rfl⟩)) rfl
  exact ⟨events ++ [.repeatStopped stop], by rw [World.append_log, grows, List.append_assoc], both⟩

end Settled

/-- The end of a computation that settles: its value has the failure recorded last, and so has its data
when it raises. -/
def EndsSettled {σ α : Type} (w : World) (last : α → σ → Option Failure) (ok : α → σ → Prop)
    (raised : σ → Prop) : EStateM.Result Exn (σ × World) α → Prop
  | .ok a s => Settled w s.2 (last a s.1) ∧ ok a s.1
  | .error _ s => (∃ last, Settled w s.2 last) ∧ raised s.1

/-! ## Records -/

/-- A step is failed exactly when it has an error. -/
def StepRecord.Consistent (record : StepRecord) : Prop :=
  record.status = .failed ↔ record.error.isSome

/-- A run of a flow, and each step of it, is failed exactly when it has an error. -/
structure FlowRun.Consistent (run : FlowRun) : Prop where
  error : run.status = .failed ↔ run.error.isSome
  steps : ∀ entry ∈ run.steps, entry.2.Consistent

/-- The record of a flow with all its runs. -/
structure FlowRecord.Consistent (record : FlowRecord) : Prop where
  run : record.toFlowRun.Consistent
  attempts : ∀ attempt ∈ record.attempts, attempt.Consistent

/-- Every record agrees with its error. -/
def RecordsConsistent (records : Records) : Prop := ∀ entry ∈ records, entry.2.Consistent

/-- A run that has not failed has no error. -/
theorem FlowRun.Consistent.unfailed {run : FlowRun} (h : run.Consistent)
    (status : run.status ≠ .failed) :
    run.error = none :=
  Option.not_isSome_iff_eq_none.mp fun some_ => status (h.error.mpr some_)

/-- Recording a consistent flow. -/
theorem RecordsConsistent.set {records : Records} (h : RecordsConsistent records) (name : String)
    {record : FlowRecord} (own : record.Consistent) :
    RecordsConsistent (Dict.set name record records) := by
  intro entry mem
  rcases Dict.mem_set mem with rfl | mem
  · exact own
  · exact h entry mem

/-- A skipped flow has no error. -/
theorem skipped_consistent (flow : FlowPlan) : (skipped flow).Consistent := by
  have bare {status : Status} (skipped_ : status = .skipped) :
      status = .failed ↔ (none : Option Failure).isSome := by
    subst skipped_
    exact ⟨fun failed => absurd failed Status.noConfusion, fun some_ => absurd some_
      Bool.false_ne_true⟩
  refine ⟨⟨bare rfl, fun entry mem => ?_⟩, List.forall_mem_nil _⟩
  obtain ⟨step, -, rfl⟩ := List.mem_map.mp mem
  exact bare rfl

/-! ## Steps -/

section Flow

variable {r : WorkflowRunner} {collection : CollectionCall → Exec Unit StepRecord} {call : FlowCall}
  {step : StepPlan}

/-- A collection ends with the failure recorded last. -/
def CollectionsSettle (collection : CollectionCall → Exec Unit StepRecord) : Prop :=
  ∀ call w, EndsSettled w (fun record _ => record.error)
      (fun record _ => record.Consistent) (fun _ => True)
    (collection call ((), w))

/-- The data of a flow is failed exactly when it has an error, and so is each step of it. -/
structure FlowLocals.Consistent (l : FlowLocals) : Prop where
  error : l.status = .failed ↔ l.error.isSome
  steps : ∀ entry ∈ l.records, entry.2.Consistent

/-- Recording a consistent step. -/
theorem steps_set {records : List (String × StepRecord)} (h : ∀ entry ∈ records, entry.2.Consistent)
    (name : String) {record : StepRecord} (own : record.Consistent) :
    ∀ entry ∈ Dict.set name record records, entry.2.Consistent := by
  intro entry mem
  rcases Dict.mem_set mem with rfl | mem
  · exact own
  · exact h entry mem

/-- A round of the loop goes on only without an error. -/
def StepSettles (w : World) : EStateM.Result Exn (FlowLocals × World) Control → Prop :=
  EndsSettled w (fun _ l => l.error)
      (fun control l => l.Consistent ∧ (control = .next → l.error = none))
    (fun l => ∀ entry ∈ l.records, entry.2.Consistent)

/-- The events of a step's start are no failures. -/
theorem quiet_started (flow step : String) (guarded : Option Bool) :
    ∀ event ∈ Event.stepStarted flow step ::
      (if guarded = some true then
        [Event.conditionEvaluated ("steps." ++ step ++ ".when") true] else []),
      event.failure = none := by
  refine List.forall_mem_cons.mpr ⟨rfl, fun event mem => ?_⟩
  split at mem
  · obtain rfl := List.mem_singleton.mp mem
    rfl
  · cases mem

/-- Starting a step is no failure. -/
theorem settled_startStep (flow step : String) (guarded : Option Bool) (w : World) :
    Settled w (w.startStep flow step guarded) none :=
  ⟨_, rfl, sealed_quiet (quiet_started flow step guarded)⟩

/-- Calling the executor is no failure. -/
theorem settled_operated (flow step : String) (usage : Usage) (w : World) :
    Settled w (w.operated flow step usage) none :=
  ⟨_, rfl, sealed_quiet (List.forall_mem_singleton.mpr rfl)⟩

/-- A flow without an error has not failed. -/
theorem FlowLocals.Consistent.unfailed {l : FlowLocals} (h : l.Consistent) (clear : l.error = none) :
    l.status ≠ .failed := by
  intro failed
  have some_ := h.error.mp failed
  rw [clear] at some_
  cases some_

/-- Data without an error. -/
theorem consistent_clear {l : FlowLocals} (clear : l.error = none) (status : l.status ≠ .failed)
    (steps : ∀ entry ∈ l.records, entry.2.Consistent) : l.Consistent := by
  refine ⟨⟨fun failed => absurd failed status, fun some_ => ?_⟩, steps⟩
  rw [clear] at some_
  cases some_

/-- A step that leaves no error. -/
theorem stepSettles_clear {l : FlowLocals} {w w' : World} {control : Control}
    (settled : Settled w w' none)
    (own : l.Consistent) (clear : l.error = none) : StepSettles w (.ok control (l, w')) := by
  refine ⟨?_, own, fun _ => clear⟩
  show Settled w w' l.error
  rw [clear]
  exact settled

/-- A step that stops with the last failure. -/
theorem stepSettles_stop {l : FlowLocals} {w w' : World} (settled : Settled w w' l.error)
    (own : l.Consistent) : StepSettles w (.ok .stop (l, w')) :=
  ⟨settled, own, fun next => absurd next Control.noConfusion⟩

/-- An operation ends with the failure that it recorded. -/
theorem operationRan_settles {inputs : Object} {l : FlowLocals} {w : World}
    {result : EStateM.Result Exn (FlowLocals × World) Control} (own : l.Consistent)
    (clear : l.error = none)
    (ran : OperationRan r call step inputs l w result) : StepSettles w result := by
  cases ran with
  | failed called cause idle => exact ⟨⟨none, (settled_operated _ _ _ w).idle idle⟩, own.steps⟩
  | @ended executed outcome value ended w' called accepted idle =>
    refine stepSettles_clear ((settled_operated _ _ _ w).idle idle)
      (consistent_clear clear ?_ ?_) clear
    · intro failed
      have either : (if outcome.needsReview then Status.needsReview else l.status) = .failed := failed
      split_ifs at either
      exact own.unfailed clear either
    · refine steps_set own.steps step.name
        ⟨fun failed => ?_, fun some_ => absurd some_ Bool.false_ne_true⟩
      have either : (if outcome.needsReview then Status.needsReview else .completed) = .failed :=
        failed
      split_ifs at either

/-- A step ends with the failure that it recorded. -/
theorem stepRan_settles (collections : CollectionsSettle collection) {l : FlowLocals} {w : World}
    {result : EStateM.Result Exn (FlowLocals × World) Control} (own : l.Consistent)
    (clear : l.error = none)
    (ran : StepRan r collection call step l w result) : StepSettles w result := by
  cases ran with
  -- what ends before the step starts leaves no failure of its own
  | late => exact ⟨⟨none, settled_idle (.tick w)⟩, own.steps⟩
  | guardFailed => exact ⟨⟨none, settled_idle (.tick w)⟩, own.steps⟩
  | skipped =>
    refine stepSettles_clear ((settled_idle (.tick w)).trans (settled_append w.tick ?_)) own clear
    exact List.forall_mem_cons.mpr ⟨rfl, List.forall_mem_singleton.mpr rfl⟩
  | limit =>
    exact ⟨⟨none, (settled_idle (.tick w)).trans
      (settled_append w.tick (List.forall_mem_singleton.mpr rfl))⟩, own.steps⟩
  | inputsFailed => exact ⟨⟨none, settled_startStep _ _ _ w⟩, own.steps⟩
  | @operation guarded started inputs result _ _ _ _ _ ran =>
    -- starting a step changes no record
    have begun : (l.start step.name started).Consistent := ⟨own.error, own.steps⟩
    have ended := operationRan_settles begun clear ran
    cases result with
    | ok control s => exact ⟨(settled_startStep _ _ _ w).trans ended.1, ended.2⟩
    | error error s =>
      obtain ⟨⟨last, settled⟩, steps⟩ := ended
      exact ⟨⟨last, (settled_startStep _ _ _ w).trans settled⟩, steps⟩
  | @collectionRaised guarded started inputs _ flows maxItems _ w' _ _ _ _ _ ran =>
    have ended := collections ⟨flows, maxItems, inputs, call.envelope, call.collectionDepth⟩
      (w.startStep call.flow.name step.name guarded)
    rw [ran] at ended
    obtain ⟨⟨last, settled⟩, -⟩ := ended
    exact ⟨⟨last, (settled_startStep _ _ _ w).trans settled⟩, own.steps⟩
  | @collectionEnded guarded started inputs _ flows maxItems record w' _ _ _ _ _ ran =>
    have ended := collections ⟨flows, maxItems, inputs, call.envelope, call.collectionDepth⟩
      (w.startStep call.flow.name step.name guarded)
    rw [ran] at ended
    obtain ⟨settled, consistent⟩ := ended
    have whole := (settled_startStep call.flow.name step.name guarded w).trans settled
    have steps : ∀ entry ∈ Dict.set step.name record l.records, entry.2.Consistent :=
      steps_set own.steps step.name consistent
    by_cases failed : record.status = .failed
    · have status : (FlowLocals.collect call.stepId step.name record
          (l.start step.name started)).status =
          .failed := (if_pos (.inl failed)).trans failed
      -- the error of a failed collection becomes the error of the flow
      have error : (FlowLocals.collect call.stepId step.name record
          (l.start step.name started)).error =
          record.error := if_pos failed
      rw [if_pos (.inl failed)]
      refine stepSettles_stop ?_ ⟨?_, steps⟩
      · rw [error]
        exact whole
      · rw [status, error]
        exact ⟨fun _ => consistent.mp failed, fun _ => rfl⟩
    · have none_ : record.error = none :=
        Option.not_isSome_iff_eq_none.mp fun some_ => failed (consistent.mpr some_)
      have error : (FlowLocals.collect call.stepId step.name record
          (l.start step.name started)).error =
          none := (if_neg failed).trans clear
      have settled : Settled w w' none := none_ ▸ whole
      refine stepSettles_clear settled (consistent_clear error ?_ steps) error
      intro ended
      have either : (if record.status = .failed ∨ record.status = .needsReview then record.status
        else l.status) = .failed := ended
      split_ifs at either
      · exact failed either
      · exact own.unfailed clear either

/-- The steps of a flow end with the failure that was recorded. -/
theorem stepsRan_settles (collections : CollectionsSettle collection) {steps : List StepPlan}
    {l : FlowLocals} {w : World} {result : EStateM.Result Exn (FlowLocals × World) Unit}
    (own : l.Consistent) (clear : l.error = none)
    (ran : StepsRan r collection call steps l w result) :
    EndsSettled w (fun _ l => l.error) (fun _ l => l.Consistent)
      (fun l => ∀ entry ∈ l.records, entry.2.Consistent) result := by
  induction ran with
  | @done l w =>
    refine ⟨?_, own⟩
    show Settled w w l.error
    rw [clear]
    exact settled_refl w
  | @next step steps l l₁ w w₁ result ran rest ih =>
    obtain ⟨settled, own₁, goesOn⟩ := stepRan_settles collections own clear ran
    have clear₁ := goesOn rfl
    have settled : Settled w w₁ none := by
      have settled : Settled w w₁ l₁.error := settled
      rwa [clear₁] at settled
    have ended := ih own₁ clear₁
    cases result with
    | ok _ s => exact ⟨settled.trans ended.1, ended.2⟩
    | error error s =>
      obtain ⟨⟨last, more⟩, steps⟩ := ended
      exact ⟨⟨last, settled.trans more⟩, steps⟩
  | stop ran =>
    obtain ⟨settled, own₁, -⟩ := stepRan_settles collections own clear ran
    exact ⟨settled, own₁⟩
  | raised ran =>
    obtain ⟨settled, steps⟩ := stepRan_settles collections own clear ran
    exact ⟨settled, steps⟩

/-- A flow starts without an error. -/
theorem init_consistent (call : FlowCall) (started : ℚ) : (call.init started).Consistent := by
  refine consistent_clear rfl Status.noConfusion fun entry mem => ?_
  obtain ⟨step, -, rfl⟩ := List.mem_map.mp (Dict.mem_of_mem_ofList mem)
  exact ⟨fun failed => absurd failed Status.noConfusion, fun some_ => absurd some_ Bool.false_ne_true⟩

/-- A flow that fails is failed with the failure, and so is its active step. -/
theorem fail_consistent (failure : Failure) (ended : ℚ) {l : FlowLocals}
    (steps : ∀ entry ∈ l.records, entry.2.Consistent) :
    (l.fail failure ended).Consistent ∧ (l.fail failure ended).error = some failure := by
  unfold FlowLocals.fail
  cases l.active with
  | none => exact ⟨⟨⟨fun _ => rfl, fun _ => rfl⟩, steps⟩, rfl⟩
  | some active =>
    refine ⟨⟨⟨fun _ => rfl, fun _ => rfl⟩, ?_⟩, rfl⟩
    exact steps_set steps active ⟨fun _ => rfl, fun _ => rfl⟩

/-- An execution of a flow has the failure recorded last. -/
def RunsSettle (run : FlowCall → World → (FlowRun × List DecisionIssue) × World) : Prop :=
  ∀ call w, Settled w (run call w).2 (run call w).1.1.error ∧ (run call w).1.1.Consistent

/-- The steps of a flow end with the failure that becomes the flow's. -/
theorem flowBody_settles (collections : CollectionsSettle collection) {started : ℚ} {w : World}
    {result : EStateM.Result Exn (FlowLocals × World) Unit}
    (body : FlowBody r collection call started w result) :
    EndsSettled w (fun _ l => l.error) (fun _ l => l.Consistent)
      (fun l => ∀ entry ∈ l.records, entry.2.Consistent) result := by
  have settles {result : EStateM.Result Exn (FlowLocals × World) Unit}
      (steps : StepsRan r collection call call.steps (call.init started) w result) :=
    stepsRan_settles collections (init_consistent call started) rfl steps
  cases body with
  | finished steps output =>
    obtain ⟨settled, own⟩ := settles steps
    exact ⟨settled, ⟨own.error, own.steps⟩⟩
  | outputFailed steps output =>
    obtain ⟨settled, own⟩ := settles steps
    exact ⟨⟨_, settled⟩, own.steps⟩
  | stepsFailed steps => exact settles steps

/-- A flow's record has the last failure as its error. -/
theorem flowRan_settles (collections : CollectionsSettle collection) {w w' : World} {record : FlowRun}
    {issues : List DecisionIssue} (ran : FlowRan r collection call w ((record, issues), w')) :
    Settled w w' record.error ∧ record.Consistent := by
  cases ran with
  | finished body =>
    obtain ⟨settled, own⟩ := flowBody_settles collections body
    exact ⟨((settled_idle (.tick w)).trans settled).idle (.tick _), ⟨own.error, own.steps⟩⟩
  | @failed started ended elapsed l w₁ w₂ w₃ error failure body of idle after =>
    obtain ⟨⟨last, settled⟩, steps⟩ := flowBody_settles collections body
    obtain ⟨own, fails⟩ := fail_consistent failure ended steps
    have whole := ((((settled_idle (.tick w)).trans settled).idle idle).fails failure).idle after
    refine ⟨?_, ⟨own.error, own.steps⟩⟩
    show Settled w w' (l.fail failure ended).error
    rw [fails]
    exact whole

/-- Every run of a flow has the last failure as its error. -/
theorem executeFlowWith_settles (collections : CollectionsSettle collection) :
    RunsSettle (executeFlowWith r collection) :=
  fun call w => flowRan_settles collections (executeFlowWith_ran r collection call w)

end Flow

/-! ## Repeats -/

section Repeat

variable {r : WorkflowRunner} {run : FlowCall → World → (FlowRun × List DecisionIssue) × World}
  {flow : FlowPlan} {rep : RepeatPlan} {scope : RepeatScope} {attempt : ℕ}
  {issues : List DecisionIssue} {records : Records} {w : World}

/-- The failure of a decision that stops a repeat. -/
def RepeatDecision.failure : RepeatDecision → Option Failure
  | .stopped _ _ _ failure => failure
  | .again _ _ => none

/-- A decision changes the status only of a run without an error, and not to failed. -/
def RepeatDecision.Fits (record : FlowRun) : RepeatDecision → Prop
  | .stopped _ _ status _ => status = none ∨ status = some .needsReview ∧ record.error = none
  | .again _ _ => record.error = none

/-- Recording a consistent retry run. -/
theorem setRetry_consistent (own : RecordsConsistent records) (name : String) {retry : FlowRun}
    (consistent : retry.Consistent) : RecordsConsistent (setRetry name retry records) := by
  refine own.set name ⟨consistent,
    List.forall_mem_append.mpr ⟨?_, List.forall_mem_singleton.mpr consistent⟩⟩
  intro earlier mem
  unfold retryRuns at mem
  cases known : records.lookup name with
  | none =>
    rw [known] at mem
    cases mem
  | some record =>
    rw [known] at mem
    exact (own _ (Dict.mem_of_lookup known)).attempts earlier mem

/-- A retry run that failed before it ran has its failure. -/
theorem failedRetry_consistent (retry : FlowPlan) (failure : Failure) :
    (failedRetry retry failure).Consistent :=
  ⟨⟨fun _ => rfl, fun _ => rfl⟩, (skipped_consistent retry).run.steps⟩

/-- The events of a retry run's start are no failures. -/
theorem quiet_retry (name retry : String) (records : Records) :
    ∀ event ∈ [Event.boundary (.retryInput name) records, .flowStarted retry .retry],
    event.failure = none :=
  List.forall_mem_cons.mpr ⟨rfl, List.forall_mem_singleton.mpr rfl⟩

/-- A retry run ends with its own failure. -/
theorem retryRun_settles (runs : RunsSettle run) {retry : FlowPlan} {record : FlowRun}
    {retryIssues : List DecisionIssue} {w' : World}
    (ran : RetryRun r run flow rep scope attempt records w retry record retryIssues w') :
    Settled w w' record.error ∧ record.Consistent := by
  obtain ⟨inputs, envelope, -, -, ended⟩ := ran.ran
  have settled := runs (retryCall scope retry envelope attempt)
    (w.append [.boundary (.retryInput flow.name) records, .flowStarted retry.name .retry])
  rw [ended] at settled
  exact ⟨(settled_append w (quiet_retry flow.name retry.name records)).trans settled.1, settled.2⟩

/-- What a retry run decides ends with the last failure. -/
theorem retryRan_settles (runs : RunsSettle run) {record : FlowRun} (clear : record.error = none)
    (own : RecordsConsistent records)
    {result : EStateM.Result Exn (Records × World) (Option RepeatDecision)}
    (ran : RetryRan r run flow rep scope attempt issues records w result) :
    EndsSettled w (fun decision _ => decision.bind RepeatDecision.failure)
      (fun decision records => RecordsConsistent records ∧ ∀ chosen, decision = some chosen →
        chosen.Fits record)
      RecordsConsistent result := by
  have stopped {stop : RepeatStop} {issues : List DecisionIssue} {failure : Option Failure} :
      ∀ chosen, some (RepeatDecision.stopped stop issues none failure) = some chosen →
        chosen.Fits record := by
    intro chosen same
    obtain rfl := Option.some.inj same
    exact .inl rfl
  have nothing : ∀ chosen, (none : Option RepeatDecision) = some chosen → chosen.Fits record :=
    fun chosen same => absurd same.symm (Option.some_ne_none chosen)
  cases ran with
  | absent => exact ⟨settled_refl w, own, nothing⟩
  | unknown => exact ⟨⟨none, settled_refl w⟩, own⟩
  | @inputFailed retry error failure w₁ _ _ _ of idle =>
    have bound := settled_append w (List.forall_mem_singleton.mpr
      (rfl : (Event.boundary (.retryInput flow.name) records).failure = none))
    exact ⟨(bound.idle idle).fails failure,
      setRetry_consistent own retry.name (failedRetry_consistent retry failure), stopped⟩
  | envelopeFailed => exact ⟨⟨none, settled_append w (quiet_retry _ _ records)⟩, own⟩
  | failed ran status =>
    obtain ⟨settled, consistent⟩ := retryRun_settles runs ran
    exact ⟨settled, setRetry_consistent own _ consistent, stopped⟩
  | review ran status =>
    obtain ⟨settled, consistent⟩ := retryRun_settles runs ran
    -- a review is no failure, so nothing is left unsettled
    have none_ := consistent.unfailed (fun failed => by rw [status] at failed; cases failed)
    rw [none_] at settled
    refine ⟨settled, setRetry_consistent own _ consistent, fun chosen same => ?_⟩
    obtain rfl := Option.some.inj same
    exact .inr ⟨rfl, clear⟩
  | conditionFailed ran failed =>
    obtain ⟨settled, consistent⟩ := retryRun_settles runs ran
    exact ⟨⟨_, settled⟩, setRetry_consistent own _ consistent⟩
  | stop ran failed =>
    obtain ⟨settled, consistent⟩ := retryRun_settles runs ran
    rw [consistent.unfailed failed] at settled
    exact ⟨settled.trans (settled_append _ (List.forall_mem_singleton.mpr rfl)),
      setRetry_consistent own _ consistent, stopped⟩
  | @goOn retry record' retryIssues w' events ran failed review continues =>
    obtain ⟨settled, consistent⟩ := retryRun_settles runs ran
    rw [consistent.unfailed failed] at settled
    have quiet : ∀ event ∈ events, event.failure = none := by
      rcases continues with ⟨-, rfl⟩ | ⟨_, -, -, rfl⟩
      · exact List.forall_mem_nil _
      · exact List.forall_mem_singleton.mpr rfl
    exact ⟨settled.trans (settled_append _ quiet), setRetry_consistent own _ consistent, nothing⟩

/-- What follows an attempt that settled: the decision has the failure recorded last, or the attempt
has. -/
theorem decisionRan_settles (runs : RunsSettle run) {record : FlowRun}
    (consistent : record.Consistent)
    (own : RecordsConsistent records) {start : World} (before : Settled start w record.error)
    {result : EStateM.Result Exn (Records × World) RepeatDecision}
    (ran : DecisionRan r run flow rep scope record attempt issues records w result) :
    EndsSettled start (fun decision _ => decision.failure.or record.error)
      (fun decision records => RecordsConsistent records ∧ decision.Fits record)
      RecordsConsistent result := by
  -- Whatever happens after the check of the status follows an attempt without an error.
  have passed (failed : record.status ≠ .failed) : record.error = none ∧ Settled start w none := by
    have clear := consistent.unfailed failed
    rw [clear] at before
    exact ⟨clear, before⟩
  have checked {w : World} (before : Settled start w none) (met : Bool) :
      Settled start (w.append [.conditionEvaluated "repeat.until" met]) none :=
    before.trans (settled_append w (List.forall_mem_singleton.mpr rfl))
  have retried (failed : record.status ≠ .failed)
      {result : EStateM.Result Exn (Records × World) (Option RepeatDecision)}
      (retry : RetryRan r run flow rep scope attempt issues records
        (w.append [.conditionEvaluated "repeat.until" false]) result) :
      EndsSettled start (fun decision _ => decision.bind RepeatDecision.failure)
        (fun decision records => RecordsConsistent records ∧
          ∀ chosen, decision = some chosen → chosen.Fits record) RecordsConsistent result := by
    obtain ⟨clear, settled⟩ := passed failed
    have between := checked settled false
    have ended := retryRan_settles runs clear own retry
    cases result with
    | ok decision s => exact ⟨between.trans ended.1, ended.2⟩
    | error error s =>
      obtain ⟨⟨last, more⟩, consistent⟩ := ended
      exact ⟨⟨last, between.trans more⟩, consistent⟩
  cases ran with
  | failure status => exact ⟨before, own, .inl rfl⟩
  | review status => exact ⟨before, own, .inl rfl⟩
  | untilFailed failed => exact ⟨⟨none, (passed failed).2⟩, own⟩
  | untilMet failed =>
    obtain ⟨clear, settled⟩ := passed failed
    refine ⟨?_, own, .inl rfl⟩
    show Settled start _ ((none : Option Failure).or record.error)
    rw [clear]
    exact checked settled true
  | exhausted failed =>
    obtain ⟨clear, settled⟩ := passed failed
    refine ⟨?_, own, .inl rfl⟩
    show Settled start _ ((none : Option Failure).or record.error)
    rw [clear]
    exact checked settled false
  | retryRaised failed _ _ _ retry => exact retried failed retry
  | @retryStopped decision records' w' failed _ _ _ retry =>
    obtain ⟨clear, -⟩ := passed failed
    obtain ⟨settled, consistent', fits⟩ := retried failed retry
    refine ⟨?_, consistent', fits decision rfl⟩
    show Settled start w' (decision.failure.or record.error)
    rw [clear, Option.or_none]
    exact settled
  | @nextFailed records' w₁ w₂ w₃ error failure failed _ _ _ retry next of idle =>
    obtain ⟨settled, consistent', -⟩ := retried failed retry
    have settled : Settled start w₁ none := settled
    have bound : Settled start w₂ none := by
      cases next with
      | late => exact settled.idle (.tick w₁)
      | failed value =>
        exact (settled.idle (.tick w₁)).trans (settled_append _ (List.forall_mem_singleton.mpr rfl))
    exact ⟨(bound.idle idle).fails failure, consistent', .inl rfl⟩
  | @again records' w₁ w' inputs failed _ _ _ retry next =>
    obtain ⟨clear, -⟩ := passed failed
    obtain ⟨settled, consistent', -⟩ := retried failed retry
    have settled : Settled start w₁ none := settled
    refine ⟨?_, consistent', clear⟩
    show Settled start w' ((none : Option Failure).or record.error)
    rw [clear]
    cases next with
    | bound value =>
      exact (settled.idle (.tick w₁)).trans (settled_append _ (List.forall_mem_singleton.mpr rfl))

/-- The record of a repeated flow is consistent when its runs are. -/
theorem decided_consistent {record : FlowRun} {attempts : List FlowRun} {decision : RepeatDecision}
    (consistent : record.Consistent) (earlier : ∀ attempt ∈ attempts, attempt.Consistent)
    (fits : decision.Fits record) : (decided record attempts decision).Consistent := by
  cases decision with
  | again => exact ⟨consistent, earlier⟩
  | stopped stop issues status failure =>
    refine ⟨⟨?_, consistent.steps⟩, earlier⟩
    rcases fits with rfl | ⟨rfl, clear⟩
    · exact consistent.error
    · show (Status.needsReview = .failed) ↔ record.error.isSome
      rw [clear]
      exact ⟨fun failed => absurd failed Status.noConfusion, fun some_ => absurd some_
        Bool.false_ne_true⟩

end Repeat

/-! ## Collections -/

section Collection

variable {r : WorkflowRunner} {run : FlowCall → World → (FlowRun × List DecisionIssue) × World}
  {call : CollectionCall} {item : Item}

/-- The failure of an item. -/
def ItemRun.error (ran : ItemRun) : Option Failure := ran.failure.or ran.record.error

/-- Recording consistent attempts. -/
theorem setAttempt_consistent {records : Records} (own : RecordsConsistent records) (name : String)
    {record : FlowRun} {attempts : List FlowRun} (consistent : record.Consistent)
    (earlier : ∀ attempt ∈ attempts, attempt.Consistent) :
    RecordsConsistent (setAttempt name record attempts records) :=
  own.set name ⟨consistent, List.forall_mem_append.mpr
    ⟨earlier, List.forall_mem_singleton.mpr consistent⟩⟩

/-- The attempts of an item end with the failure of the last one. -/
theorem attemptsRan_settles (runs : RunsSettle run) {rep : RepeatPlan}
    {scope : RepeatScope} {remaining : ℕ}
    {attempts : List FlowRun} {records : Records} {inputs : Object} {w : World}
    {result : EStateM.Result Exn (Unit × World) ItemRun} (own : RecordsConsistent records)
    (earlier : ∀ attempt ∈ attempts, attempt.Consistent)
    (ran : AttemptsRan r run rep item scope remaining attempts records inputs w result) :
    EndsSettled w (fun ran _ => ran.error) (fun ran _ => ran.record.Consistent)
    (fun _ => True) result := by
  induction ran with
  | none => exact ⟨⟨none, settled_append _ (List.forall_mem_singleton.mpr rfl)⟩, trivial⟩
  | envelopeFailed => exact ⟨⟨none, settled_append _ (List.forall_mem_singleton.mpr rfl)⟩, trivial⟩
  | @decisionFailed remaining attempts records records' inputs envelope record issues w w₁ w₂
        error received ran
      decision =>
    have attempted := runs (itemCall item scope.collectionDepth envelope (attempts.length + 1))
      (w.append [.flowStarted item.flow.name .callable])
    rw [ran] at attempted
    have before := (settled_append w (List.forall_mem_singleton.mpr rfl)).trans attempted.1
    have decided_ := decisionRan_settles runs attempted.2
      (setAttempt_consistent own item.flow.name attempted.2 earlier) before decision
    exact ⟨decided_.1, trivial⟩
  | @again remaining attempts records records' inputs inputs' envelope record issues
        issues' w w₁ w₂ result
      received ran decision rest ih =>
    have attempted := runs (itemCall item scope.collectionDepth envelope (attempts.length + 1))
      (w.append [.flowStarted item.flow.name .callable])
    rw [ran] at attempted
    have before := (settled_append w (List.forall_mem_singleton.mpr rfl)).trans attempted.1
    obtain ⟨settled, consistent, clear⟩ := decisionRan_settles runs attempted.2
      (setAttempt_consistent own item.flow.name attempted.2 earlier) before decision
    have settled : Settled w w₂ none := by
      have settled : Settled w w₂ ((none : Option Failure).or record.error) := settled
      have clear : record.error = none := clear
      rwa [clear] at settled
    have attempts_ : ∀ attempt ∈ attempts ++ [record], attempt.Consistent :=
      List.forall_mem_append.mpr ⟨earlier, List.forall_mem_singleton.mpr attempted.2⟩
    have ended := ih (consistent.set item.flow.name ⟨attempted.2, attempts_⟩) attempts_
    cases result with
    | ok ran s => exact ⟨settled.trans ended.1, ended.2⟩
    | error error s =>
      obtain ⟨⟨last, more⟩, -⟩ := ended
      exact ⟨⟨last, settled.trans more⟩, trivial⟩
  | @stopped remaining attempts records records' inputs envelope record issues issues'
        w w₁ w₂ stop status
      failure received ran decision =>
    have attempted := runs (itemCall item scope.collectionDepth envelope (attempts.length + 1))
      (w.append [.flowStarted item.flow.name .callable])
    rw [ran] at attempted
    have before := (settled_append w (List.forall_mem_singleton.mpr rfl)).trans attempted.1
    obtain ⟨settled, -, fits⟩ := decisionRan_settles runs attempted.2
      (setAttempt_consistent own item.flow.name attempted.2 earlier) before decision
    exact ⟨settled.stops stop, decided_consistent attempted.2
      (List.forall_mem_append.mpr ⟨earlier, List.forall_mem_singleton.mpr attempted.2⟩) fits⟩

/-- An item ends with its failure. -/
theorem itemRan_settles (runs : RunsSettle run) {w : World}
    {result : EStateM.Result Exn (Unit × World) ItemRun} (ran : ItemRan r run call item w result) :
    EndsSettled w (fun ran _ => ran.error) (fun ran _ => ran.record.Consistent)
    (fun _ => True) result := by
  cases ran with
  | envelopeFailed => exact ⟨⟨none, settled_refl w⟩, trivial⟩
  | @once envelope record issues w' received single ran =>
    have ended := runs (itemCall item (call.collectionDepth + 1) envelope 1)
      (w.append [.flowStarted item.flow.name .callable])
    rw [ran] at ended
    exact ⟨(settled_append w (List.forall_mem_singleton.mpr rfl)).trans ended.1, ended.2,
      List.forall_mem_nil _⟩
  | repeated _ _ ran =>
    exact attemptsRan_settles runs (List.forall_mem_nil _) (List.forall_mem_nil _) ran

/-- An item that does not stop the collection has no error. -/
theorem ItemRun.unfailed {ran : ItemRun} (consistent : ran.record.Consistent)
    (fails : ¬ (ran.record.status = .failed ∨ ran.failure.isSome)) : ran.error = none := by
  obtain ⟨status, failure⟩ := not_or.mp fails
  rw [ItemRun.error, Option.not_isSome_iff_eq_none.mp failure, consistent.run.unfailed status]
  rfl

/-- Items end with the failure recorded last; only they make the status failed. -/
theorem itemsRan_settles (runs : RunsSettle run) {usage : Usage} {status : Status} {items : List Item}
    {w : World} {result : EStateM.Result Exn (Unit × World) ItemsRun} (clear : status ≠ .failed)
    (ran : ItemsRan r run call usage status items w result) :
    EndsSettled w (fun ran _ => ran.failure) (fun ran _ => ran.status = .failed ↔ ran.failure.isSome)
      (fun _ => True) result := by
  induction ran with
  | @done usage status w =>
    exact ⟨settled_refl w, fun failed => absurd failed clear, fun some_ => absurd some_
      Bool.false_ne_true⟩
  | raised ran => exact itemRan_settles runs ran
  | @failed usage status item rest w w' ran ended fails =>
    obtain ⟨settled, consistent⟩ := itemRan_settles runs ended
    have error : (ran.failure <|> ran.record.error) = ran.error := Option.orElse_eq_or
    refine ⟨?_, fun _ => ?_, fun _ => rfl⟩
    · show Settled w w' (ran.failure <|> ran.record.error)
      rw [error]
      exact settled
    · show (ran.failure <|> ran.record.error).isSome
      rw [error, ItemRun.error, Option.isSome_or, Bool.or_eq_true]
      exact (fails.imp consistent.run.error.mp id).symm
  | @restRaised usage status item rest w w₁ w' ran error ended fails others ih =>
    obtain ⟨settled, consistent⟩ := itemRan_settles runs ended
    have settled : Settled w w₁ ran.error := settled
    rw [ItemRun.unfailed consistent fails] at settled
    obtain ⟨⟨last, more⟩, -⟩ := ih (by split_ifs <;> simp [clear])
    exact ⟨⟨last, settled.trans more⟩, trivial⟩
  | @next usage status item rest w w₁ w' ran others ended fails remaining ih =>
    obtain ⟨settled, consistent⟩ := itemRan_settles runs ended
    have settled : Settled w w₁ ran.error := settled
    rw [ItemRun.unfailed consistent fails] at settled
    obtain ⟨more, own⟩ := ih (by split_ifs <;> simp [clear])
    exact ⟨settled.trans more, own⟩

/-- A collection ends with the failure of the item that stopped it. -/
theorem collectionRan_settles (runs : RunsSettle run) {w : World}
    {result : EStateM.Result Exn (Unit × World) StepRecord}
    (ran : CollectionRan r run call w result) :
    EndsSettled w (fun record _ => record.error) (fun record _ => record.Consistent)
    (fun _ => True) result := by
  cases ran with
  | refused cause idle => exact ⟨⟨none, settled_idle idle⟩, trivial⟩
  | tooDeep =>
    exact ⟨⟨none, (settled_idle (.tick w)).trans
      (settled_append _ (List.forall_mem_singleton.mpr rfl))⟩, trivial⟩
  | misrouted _ _ idle =>
    exact ⟨⟨none, (settled_idle idle).trans (settled_append _ (List.forall_mem_singleton.mpr rfl))⟩,
      trivial⟩
  | itemsRaised _ _ _ _ idle ran =>
    obtain ⟨⟨last, settled⟩, -⟩ := itemsRan_settles runs Status.noConfusion ran
    exact ⟨⟨last, (settled_idle idle).trans settled⟩, trivial⟩
  | ledgerRaised _ _ _ _ idle ended =>
    obtain ⟨settled, -⟩ := itemsRan_settles runs Status.noConfusion ended
    exact ⟨⟨_, (settled_idle idle).trans settled⟩, trivial⟩
  | recorded _ _ _ _ idle ended =>
    obtain ⟨settled, own⟩ := itemsRan_settles runs Status.noConfusion ended
    exact ⟨((settled_idle idle).trans settled).idle (.tick _), own⟩

/-- Every collection has the last failure as its error. -/
theorem executeCollection_settles (runs : RunsSettle run) :
    CollectionsSettle (executeCollection r run) :=
  fun call w => collectionRan_settles runs (executeCollection_ran r run call w)

/-- Flows have the last failure as their error at every depth of nested collections. -/
theorem executeFlowTo_settles (depth : ℕ) : RunsSettle (executeFlowTo r depth) := by
  induction depth with
  | zero =>
    refine executeFlowWith_settles fun call w => ⟨⟨none, ?_⟩, trivial⟩
    exact (settled_idle (.tick w)).trans (settled_append _ (List.forall_mem_singleton.mpr rfl))
  | succ depth ih => exact executeFlowWith_settles (executeCollection_settles ih)

/-- Every execution of a flow has the failure recorded last in it. -/
theorem executeFlow_settles : RunsSettle (executeFlow r) :=
  fun call w => executeFlowTo_settles _ call w

end Collection

/-! ## Routed flows -/

section Routed

variable {r : WorkflowRunner} {envelope : AcceptedEnvelope} {flow : FlowPlan}

/-- The failure that stops the routing. -/
def Routed.error : Routed → Option Failure
  | .failed error => error
  | .boundary _ _ => none

/-- A flow that stops the routing has a failure. -/
def Routed.Fails : Routed → Prop
  | .failed error => error.isSome
  | .boundary _ _ => True

/-- A routed flow ends with the last failure as its error. -/
def RoutedSettles (w : World) : EStateM.Result Exn (RunLocals × World) Routed → Prop :=
  EndsSettled w (fun routed _ => routed.error)
      (fun routed l => RecordsConsistent l.records ∧ routed.Fails)
    fun l => RecordsConsistent l.records

/-- A routed flow that goes on after a part without a failure. -/
theorem RoutedSettles.after {w w' : World} {result : EStateM.Result Exn (RunLocals × World) Routed}
    (h : RoutedSettles w' result) (first : Settled w w' none) : RoutedSettles w result := by
  cases result with
  | ok routed s => exact ⟨first.trans h.1, h.2⟩
  | error error s =>
    obtain ⟨⟨last, rest⟩, own⟩ := h
    exact ⟨⟨last, first.trans rest⟩, own⟩

/-- Decided conditions are no failures. -/
theorem quiet_conditions {events : List Event} (conditions : Conditions events) :
    ∀ event ∈ events, event.failure = none := by
  intro event mem
  obtain ⟨location, result, rfl⟩ := conditions event mem
  rfl

/-- Choosing a target ends with its failure. -/
theorem targetRan_settles {record : FlowRecord} {issues : List DecisionIssue}
    {l : RunLocals} {w : World}
    {result : EStateM.Result Exn (RunLocals × World) Routed} (own : RecordsConsistent l.records)
    (ran : TargetRan envelope flow record issues l w result) : RoutedSettles w result := by
  have quiet {events : List Event} (conditions : Conditions events) (name : String)
      (records : Records) :
      ∀ event ∈ Event.boundary (.routes name) records :: events, event.failure = none :=
    List.forall_mem_cons.mpr ⟨rfl, quiet_conditions conditions⟩
  cases ran with
  | boundary chosen conditions =>
    refine ⟨settled_append w (List.forall_mem_append.mpr
      ⟨quiet conditions _ _, List.forall_mem_singleton.mpr rfl⟩), own, trivial⟩
  | failed cause conditions => exact ⟨⟨none, settled_append w (quiet conditions _ _)⟩, own⟩
  | misrouted cause conditions =>
    exact ⟨⟨none, settled_append w (List.forall_mem_append.mpr
      ⟨quiet conditions _ _, List.forall_mem_singleton.mpr rfl⟩)⟩, own⟩

/-- The attempts of a routed flow end with the failure of the last one. -/
theorem routedAttemptsRan_settles {rep : RepeatPlan} {remaining : ℕ} {attempts : List FlowRun}
    {inputs : Object} {l : RunLocals} {w : World}
    {result : EStateM.Result Exn (RunLocals × World) Routed} (own : RecordsConsistent l.records)
    (earlier : ∀ attempt ∈ attempts, attempt.Consistent)
    (ran : RoutedAttemptsRan r envelope flow rep remaining attempts inputs l w result) :
    RoutedSettles w result := by
  -- what one attempt leaves, whatever comes after it
  have attempted {received : AcceptedEnvelope} {attempt : ℕ} {record : FlowRun}
      {issues : List DecisionIssue} {w w₁ : World}
      (ran : executeFlow r (routedCall flow received attempt) (w.startRouted flow) =
        ((record, issues), w₁)) :
      Settled w w₁ record.error ∧ record.Consistent := by
    have settled := @executeFlow_settles r (routedCall flow received attempt) (w.startRouted flow)
    rw [ran] at settled
    exact ⟨(settled_append w (List.forall_mem_singleton.mpr rfl)).trans settled.1, settled.2⟩
  induction ran with
  | none => exact ⟨⟨none, settled_append _ (List.forall_mem_singleton.mpr rfl)⟩, own⟩
  | envelopeFailed => exact ⟨⟨none, settled_refl _⟩, own⟩
  | decisionFailed _ ran decision =>
    obtain ⟨before, consistent⟩ := attempted ran
    exact decisionRan_settles executeFlow_settles consistent
      (setAttempt_consistent own flow.name consistent earlier) before decision
  | @again remaining attempts inputs inputs' l received record issues issues' records' w w₁ w₂ result
      _ ran decision rest ih =>
    obtain ⟨before, consistent⟩ := attempted ran
    obtain ⟨settled, records, clear⟩ := decisionRan_settles executeFlow_settles consistent
      (setAttempt_consistent own flow.name consistent earlier) before decision
    have settled : Settled w w₂ none := by
      have settled : Settled w w₂ ((none : Option Failure).or record.error) := settled
      -- a repeat that goes on has seen no error
      have clear : record.error = none := clear
      rwa [clear] at settled
    have attempts_ : ∀ attempt ∈ attempts ++ [record], attempt.Consistent :=
      List.forall_mem_append.mpr ⟨earlier, List.forall_mem_singleton.mpr consistent⟩
    exact (ih (records.set flow.name ⟨consistent, attempts_⟩) attempts_).after settled
  | @failed remaining attempts inputs l received record issues issues' records' w w₁ w₂
        stop status failure
      aggregated _ ran decision aggregates fails =>
    obtain ⟨before, consistent⟩ := attempted ran
    obtain ⟨settled, records, fits⟩ := decisionRan_settles executeFlow_settles consistent
      (setAttempt_consistent own flow.name consistent earlier) before decision
    have decided_ := decided_consistent consistent
      (List.forall_mem_append.mpr ⟨earlier, List.forall_mem_singleton.mpr consistent⟩) fits
    subst aggregates
    -- the failure of the decision hides the error of the attempt
    have error : (failure <|> record.error) = failure.or record.error := Option.orElse_eq_or
    refine ⟨?_, records.set flow.name decided_, ?_⟩
    · show Settled w (w₂.append [.repeatStopped stop]) (failure <|> record.error)
      rw [error]
      exact settled.stops stop
    · show (failure <|> record.error).isSome
      rw [error, Option.isSome_or, Bool.or_eq_true]
      exact (fails.imp decided_.run.error.mp id).symm
  | @ended remaining attempts inputs l received record issues issues' records' w w₁ w₂
        stop status failure
      aggregated result _ ran decision aggregates fails target =>
    obtain ⟨before, consistent⟩ := attempted ran
    obtain ⟨settled, records, fits⟩ := decisionRan_settles executeFlow_settles consistent
      (setAttempt_consistent own flow.name consistent earlier) before decision
    have decided_ := decided_consistent consistent
      (List.forall_mem_append.mpr ⟨earlier, List.forall_mem_singleton.mpr consistent⟩) fits
    subst aggregates
    obtain ⟨unfailed, clear⟩ := not_or.mp fails
    have none_ : record.error = none := decided_.run.unfailed unfailed
    have settled : Settled w w₂ none := by
      have settled : Settled w w₂ (failure.or record.error) := settled
      rwa [Option.not_isSome_iff_eq_none.mp clear, none_] at settled
    exact (targetRan_settles (records.set flow.name decided_) target).after (settled.stops stop)

/-- A routed flow ends with its failure. -/
theorem routedRan_settles {l : RunLocals} {w : World}
    {result : EStateM.Result Exn (RunLocals × World) Routed} (own : RecordsConsistent l.records)
    (ran : RoutedRan r envelope flow l w result) : RoutedSettles w result := by
  have begun (records : Records) :
      Settled w (w.tick.append [.boundary (.input flow.name) records]) none :=
    (settled_idle (.tick w)).trans (settled_append _ (List.forall_mem_singleton.mpr rfl))
  have executed {received : AcceptedEnvelope} {record : FlowRun}
      {issues : List DecisionIssue} {w' : World}
      {records : Records} (ran : executeFlow r (routedCall flow received 1)
        ((w.tick.append [.boundary (.input flow.name) records]).startRouted flow) =
          ((record, issues), w')) :
      Settled w w' record.error ∧ record.Consistent := by
    have settled := @executeFlow_settles r (routedCall flow received 1)
      ((w.tick.append [.boundary (.input flow.name) records]).startRouted flow)
    rw [ran] at settled
    have started := (begun records).trans (settled_append _
      (List.forall_mem_singleton.mpr (rfl : (Event.flowStarted flow.name .routed).failure = none)))
    exact ⟨started.trans settled.1, settled.2⟩
  cases ran with
  | late => exact ⟨⟨none, settled_idle (.tick w)⟩, own⟩
  | inputFailed => exact ⟨⟨none, begun l.records⟩, own⟩
  | envelopeFailed => exact ⟨⟨none, begun l.records⟩, own⟩
  | repeated _ _ ran =>
    have active : RecordsConsistent (l.activate flow.name).records := own
    exact (routedAttemptsRan_settles active (List.forall_mem_nil _) ran).after (begun l.records)
  | failed _ _ _ ran fails =>
    obtain ⟨settled, consistent⟩ := executed ran
    exact ⟨settled, own.set flow.name ⟨consistent, List.forall_mem_nil _⟩, consistent.error.mp fails⟩
  | ended _ _ _ ran fails target =>
    obtain ⟨settled, consistent⟩ := executed ran
    rw [consistent.unfailed fails] at settled
    exact (targetRan_settles (own.set flow.name ⟨consistent, List.forall_mem_nil _⟩) target).after
      settled

/-! ## Runs -/

/-- The end of a run before its last exception is recorded. -/
def RunSettles (w : World) : EStateM.Result Exn (RunLocals × World) Ending → Prop :=
  EndsSettled w (fun ending _ => ending.error)
    (fun ending l => RecordsConsistent l.records ∧ (ending.status = .failed ↔ ending.error.isSome))
    fun l => RecordsConsistent l.records

/-- What comes before without a failure changes nothing. -/
theorem RunSettles.after {w w' : World} {result : EStateM.Result Exn (RunLocals × World) Ending}
    (h : RunSettles w' result) (first : Settled w w' none) : RunSettles w result := by
  cases result with
  | ok ending s => exact ⟨first.trans h.1, h.2⟩
  | error error s =>
    obtain ⟨⟨last, rest⟩, own⟩ := h
    exact ⟨⟨last, first.trans rest⟩, own⟩

/-- An ending has an error when it failed. -/
theorem ending_clear (target : TransitionTargetPlan) (envelope : AcceptedEnvelope) :
    (target.ending envelope).status = .failed ↔ (target.ending envelope).error.isSome := by
  refine ⟨fun failed => ?_, fun some_ => absurd some_ Bool.false_ne_true⟩
  unfold TransitionTargetPlan.ending at failed
  dsimp only at failed
  split_ifs at failed

/-- The routing from a flow on ends with the last failure. -/
theorem flowsRan_settles {remaining : ℕ} {visited : List String} {name : String}
    {l : RunLocals} {w : World}
    {result : EStateM.Result Exn (RunLocals × World) Ending} (own : RecordsConsistent l.records)
    (ran : FlowsRan r envelope remaining visited name l w result) : RunSettles w result := by
  induction ran with
  | late => exact ⟨⟨none, settled_idle (.tick _)⟩, own⟩
  | misrouted =>
    exact ⟨⟨none, (settled_idle (.tick _)).trans
      (settled_append _ (List.forall_mem_singleton.mpr rfl))⟩, own⟩
  | raised _ ran => exact (routedRan_settles own ran).after (settled_idle (.tick _))
  | failed _ ran =>
    obtain ⟨settled, records, fails⟩ := (routedRan_settles own ran).after (settled_idle (.tick _))
    exact ⟨settled, records, fun _ => fails, fun _ => rfl⟩
  | @ended _ _ _ _ _ _ _ _ target _ _ ran =>
    obtain ⟨settled, records, -⟩ := (routedRan_settles own ran).after (settled_idle (.tick _))
    exact ⟨settled, records, ending_clear target envelope⟩
  | next _ ran _ _ ih =>
    obtain ⟨settled, records, -⟩ := (routedRan_settles own ran).after (settled_idle (.tick _))
    exact RunSettles.after (ih records) settled

/-- Choosing the first flow is no failure. -/
theorem startRan_settled {l : RunLocals} {w : World}
    {result : EStateM.Result Exn (RunLocals × World) StartRecord} (ran : StartRan r l w result) :
    Settled w (after result).2 none ∧ (after result).1 = l := by
  cases ran with
  | direct => exact ⟨settled_append w (List.forall_mem_singleton.mpr rfl), rfl⟩
  | routed _ _ _ conditions =>
    exact ⟨settled_append w (List.forall_mem_append.mpr
      ⟨quiet_conditions conditions, List.forall_mem_singleton.mpr rfl⟩), rfl⟩
  | failed _ conditions => exact ⟨settled_append w (quiet_conditions conditions), rfl⟩
  | misrouted _ _ conditions =>
    exact ⟨settled_append w (List.forall_mem_append.mpr
      ⟨quiet_conditions conditions, List.forall_mem_singleton.mpr rfl⟩), rfl⟩

/-- A run of one flow ends with its failure. -/
theorem aloneRan_settles {name : String} {stepId : Option String} {l : RunLocals} {w : World}
    {result : EStateM.Result Exn (RunLocals × World) Ending} (own : RecordsConsistent l.records)
    (ran : AloneRan r envelope name stepId l w result) : RunSettles w result := by
  cases ran with
  | late => exact ⟨⟨none, settled_idle (.tick w)⟩, own⟩
  | unknown =>
    exact ⟨⟨none, (settled_idle (.tick w)).trans
      (settled_append _ (List.forall_mem_singleton.mpr rfl))⟩, own⟩
  | @ran flow record issues w' known ran =>
    have ended := @executeFlow_settles r (aloneCall flow envelope stepId)
      (w.tick.append [.flowStarted name (aloneCall flow envelope stepId).role])
    rw [ran] at ended
    obtain ⟨settled, consistent⟩ := ended
    have whole : Settled w w' record.error := ((settled_idle (.tick w)).trans
      (settled_append _ (List.forall_mem_singleton.mpr rfl))).trans settled
    have finished : FlowRecord.Consistent { toFlowRun := record } :=
      ⟨consistent, List.forall_mem_nil _⟩
    have records := own.set name finished
    unfold FlowRun.ending
    by_cases failed : record.status = .failed
    · rw [if_pos failed]
      exact ⟨whole, records, fun _ => consistent.error.mp failed, fun _ => rfl⟩
    · rw [if_neg failed]
      rw [consistent.unfailed failed] at whole
      refine ⟨whole, records, fun status => ?_, fun some_ => absurd some_ Bool.false_ne_true⟩
      have status : (if record.status = .needsReview then Status.needsReview else .completed) =
        .failed := status
      split_ifs at status

/-- The output ends the run, or fails it. -/
theorem outputRan_settles {ending : Ending} {l : RunLocals} {start w : World}
    {result : EStateM.Result Exn (RunLocals × World) Ending}
    (before : RunSettles start (.ok ending (l, w)))
    (ran : OutputRan r envelope ending l w result) : RunSettles start result := by
  obtain ⟨settled, own, status⟩ := before
  have settled : Settled start w ending.error := settled
  have read : ending.status ≠ .failed →
      Settled start (w.append [.boundary .output l.records]) none := by
    intro unfailed
    rw [Option.not_isSome_iff_eq_none.mp fun some_ => unfailed (status.mpr some_)] at settled
    exact settled.trans (settled_append w (List.forall_mem_singleton.mpr rfl))
  cases ran with
  | unchanged => exact ⟨settled, own, status⟩
  | bound unfailed =>
    refine ⟨?_, own, status⟩
    show Settled start _ ending.error
    rw [Option.not_isSome_iff_eq_none.mp fun some_ => unfailed (status.mpr some_)]
    exact read unfailed
  | failed unfailed => exact ⟨⟨none, read unfailed⟩, own⟩

/-- What a run does for its target ends with the last failure. -/
theorem targetBody_settles {target : RunTarget} {l : RunLocals} {w : World}
    {result : EStateM.Result Exn (RunLocals × World) Ending} (own : RecordsConsistent l.records)
    (ran : TargetBody r envelope l w target result) : RunSettles w result := by
  have routed {first : StartRecord} {l₁ : RunLocals} {w₁ : World}
      {flows : EStateM.Result Exn (RunLocals × World) Ending}
        (start : StartRan r l w (.ok first (l₁, w₁)))
      (routing : FlowsRan r envelope r.plan.flows.length [] first.flow
          { l₁ with start := some first } w₁
        flows) : RunSettles w flows := by
    obtain ⟨settled, same⟩ := startRan_settled start
    have same : l₁ = l := same
    subst same
    have consistent : RecordsConsistent ({ l₁ with start := some first } : RunLocals).records := own
    exact (flowsRan_settles consistent routing).after settled
  cases ran with
  | startFailed start =>
    obtain ⟨settled, same⟩ := startRan_settled start
    have same : _ = l := same
    subst same
    exact ⟨⟨none, settled⟩, own⟩
  | routingFailed start flows => exact routed start flows
  | routed start flows output => exact outputRan_settles (routed start flows) output
  | flow ran => exact aloneRan_settles own ran
  | step ran => exact aloneRan_settles own ran

/-- A run ends with the last failure, also when it was caught at the top. -/
theorem bodyRan_settles {target : RunTarget} {l : RunLocals} {w : World}
    {result : EStateM.Result Exn (RunLocals × World) Ending} (own : RecordsConsistent l.records)
    (ran : BodyRan r envelope target l w result) : RunSettles w result := by
  cases ran with
  | raised body => exact targetBody_settles own body
  | late body =>
    obtain ⟨settled, records, -⟩ := targetBody_settles own body
    exact ⟨⟨_, settled.idle (.tick _)⟩, records⟩
  | ended body =>
    obtain ⟨settled, records, status⟩ := targetBody_settles own body
    exact ⟨settled.idle (.tick _), records, status⟩

/-- At the start every flow is skipped. -/
theorem startLocals_consistent (r : WorkflowRunner) (target : RunTarget) :
    RecordsConsistent (startLocals r target).records := by
  intro entry mem
  obtain ⟨flow, -, rfl⟩ := List.mem_map.mp (Dict.mem_of_mem_ofList mem)
  exact skipped_consistent flow

/-- The flow that was interrupted has the failure. -/
theorem interrupted_consistent (failure : Failure) {l : RunLocals}
    (own : RecordsConsistent l.records) :
    RecordsConsistent (interrupted r failure l).records := by
  unfold interrupted
  cases l.active with
  | none => exact own
  | some name =>
    refine own.set name ⟨⟨⟨fun _ => rfl, fun _ => rfl⟩, fun entry mem => ?_⟩, fun attempt mem => ?_⟩
    · cases known : r.plan.flow? name with
      | none =>
        rw [known] at mem
        cases mem
      | some flow =>
        rw [known] at mem
        exact (skipped_consistent flow).run.steps entry mem
    · cases known : l.records.lookup name with
      | none =>
        rw [known] at mem
        cases mem
      | some record =>
        rw [known] at mem
        exact (own _ (Dict.mem_of_lookup known)).attempts attempt mem

end Routed

/-- What a run settles to: its log is sealed, its error is the failure recorded last, and every record is
failed exactly when it has an error. -/
theorem run_settles (r : WorkflowRunner) (envelope : AcceptedEnvelope) (target : RunTarget) :
    Settled {} (run r envelope target).2 (run r envelope target).1.error ∧
      ((run r envelope target).1.status = .failed ↔ (run r envelope target).1.error.isSome) ∧
      RecordsConsistent (run r envelope target).1.flows := by
  have ran := run_ran r envelope target
  generalize run r envelope target = result at ran
  cases ran with
  | ended body =>
    obtain ⟨settled, records, status⟩ := bodyRan_settles (startLocals_consistent r target) body
    exact ⟨settled, status, records⟩
  | @raised error failure l w w' body of idle =>
    obtain ⟨⟨last, settled⟩, records⟩ := bodyRan_settles (startLocals_consistent r target) body
    exact ⟨(settled.idle idle).fails failure, ⟨fun _ => rfl, fun _ => rfl⟩,
      interrupted_consistent failure records⟩

/-- Nothing acts on a technical failure: after the first recorded failure a run only records failures and
stopped repeats, it is failed exactly when a failure was recorded, and its error is the failure recorded
last. -/
theorem run_stopsAtFailure (r : WorkflowRunner) (envelope : AcceptedEnvelope) (target : RunTarget) :
    (∀ before failure rest, (run r envelope target).2.log = before ++ .failed failure :: rest →
      ∀ event ∈ rest, event.Follows) ∧
      ((run r envelope target).1.status = .failed ↔ ∃ failure,
        .failed failure ∈ (run r envelope target).2.log) ∧
      (run r envelope target).1.error = lastFailure Event.failure (run r envelope target).2.log := by
  obtain ⟨⟨events, grows, sealed_⟩, status, -⟩ := run_settles r envelope target
  have log : (run r envelope target).2.log = events := grows
  rw [log]
  refine ⟨fun before failure rest split => ?_, status.trans (sealed_.isSome.trans ?_),
    sealed_.last.symm⟩
  · subst split
    exact sealed_.after rfl
  · constructor
    · rintro ⟨event, mem, recorded⟩
      cases event with
      | failed failure => exact ⟨failure, mem⟩
      | _ => cases recorded
    · rintro ⟨failure, mem⟩
      exact ⟨_, mem, rfl⟩

/-- The result of a run, and every flow, run of a flow and step in its records, is failed exactly when it
has an error. -/
theorem run_consistent (r : WorkflowRunner) (envelope : AcceptedEnvelope) (target : RunTarget) :
    ((run r envelope target).1.status = .failed ↔ (run r envelope target).1.error.isSome) ∧
      ∀ entry ∈ (run r envelope target).1.flows, entry.2.Consistent :=
  (run_settles r envelope target).2

end Foliqant.Core
