import Foliqant.Core.FlowBehavior

/-!
# What repeats and collections can do

Inversion of the runner for the decision after an attempt, the attempts of a collection item, and
the items of a collection.
-/

namespace Foliqant.Core

open Exec JsonText

section Repeat

variable (r : WorkflowRunner) (run : FlowCall → World → (FlowRun × List DecisionIssue) × World)
  (flow : FlowPlan) (rep : RepeatPlan) (scope : RepeatScope)

/-- A decided condition is an event. -/
theorem holds_ok {location : String} {condition : ConditionPlan} {context : Json} {result : Bool}
    (s : Records × World) (h : evaluateCondition r.services.tables context condition = .ok result) :
    holds r location condition context s =
      .ok result (s.1, s.2.append [.conditionEvaluated location result]) := by
  unfold holds
  rw [bind_ok (lift_ok _ h), emit_bind, pure_apply]

/-- A condition that raises leaves no event. -/
theorem holds_error {location : String} {condition : ConditionPlan} {context : Json} {error : Exn}
    (s : Records × World)
    (h : evaluateCondition r.services.tables context condition = .error error) :
    holds r location condition context s = .error error s := by
  unfold holds
  rw [bind_error (lift_error _ h)]

/-- The validated input of a flow. -/
def inputValue (name : String) (bindings : Bindings) (envelope : AcceptedEnvelope)
    (records : Records) : Except Exn Object := do
  let inputs ← resolveBindings bindings (workflowContext envelope records)
  r.services.validateFlowInput name (.obj inputs)
  return inputs

/-- A flow's input is resolved at a boundary of the run. -/
theorem flowInput_apply (place : Boundary) (name : String) (bindings : Bindings)
    (envelope : AcceptedEnvelope) (records : Records) (w : World) :
    flowInput r place name bindings envelope (records, w) =
      lift (inputValue r name bindings envelope records)
        (records, w.append [.boundary place records]) := by
  unfold flowInput inputValue
  rw [locals_bind, emit_bind]
  cases resolveBindings bindings (workflowContext envelope records) with
  | error error => rfl
  | ok inputs =>
    simp only [bind, EStateM.bind, lift, Except.bind]
    cases r.services.validateFlowInput name (.obj inputs) <;> rfl

/-- The input of the next attempt. -/
def nextValue (records : Records) : Except Exn Object :=
  match scope.item with
  | none => inputValue r flow.name (overridden flow.input rep.retryInput) scope.envelope records
  | some (_, payload) => do
      let overrides ← resolveBindings rep.retryInput (workflowContext scope.envelope records)
      let inputs := overrides.foldl (fun inputs entry => Dict.set entry.1 entry.2 inputs) payload
      r.services.validateFlowInput flow.name (.obj inputs)
      return inputs

/-- How binding the next input ends. -/
inductive NextRan (records : Records) (w : World) :
    EStateM.Result Exn (Records × World) Object → Prop
  | late (late : r.deadline ≤ r.services.clock w.reads) :
      NextRan records w (.error (.service ErrorCode.runTimeout.error) (records, w.tick))
  | failed {error : Exn} (value : nextValue r flow rep scope records = .error error) :
      NextRan records w (.error error
        (records, w.tick.append [.boundary (.nextInput flow.name) records]))
  | bound {inputs : Object} (value : nextValue r flow rep scope records = .ok inputs) :
      NextRan records w (.ok inputs
        (records, w.tick.append [.boundary (.nextInput flow.name) records]))

/-- In time, the next input is resolved at a boundary of the run. -/
theorem nextInputs_apply {records : Records} {w : World}
    (late : ¬ r.deadline ≤ r.services.clock w.reads) :
    nextInputs r flow rep scope (records, w) =
      lift (nextValue r flow rep scope records)
        (records, w.tick.append [.boundary (.nextInput flow.name) records]) := by
  unfold nextInputs nextValue
  rw [checkDeadline_bind late]
  cases scope.item with
  | none => exact flowInput_apply ..
  | some item =>
    show (locals >>= _) _ = _
    rw [locals_bind, emit_bind]
    cases overrides : resolveBindings rep.retryInput (workflowContext scope.envelope records) with
    | error error => rfl
    | ok overrides =>
      simp only [bind, EStateM.bind, lift, Except.bind]
      cases r.services.validateFlowInput flow.name _ <;> rfl

/-- The next input of a repeated flow, in time or not. -/
theorem nextInputs_ran (records : Records) (w : World) :
    NextRan r flow rep scope records w (nextInputs r flow rep scope (records, w)) := by
  by_cases late : r.deadline ≤ r.services.clock w.reads
  · unfold nextInputs
    rw [checkDeadline_bind_late late]
    exact .late late
  · rw [nextInputs_apply r flow rep scope late]
    cases value : nextValue r flow rep scope records with
    | error error => exact .failed value
    | ok inputs => exact .bound value

/-- The retry flow ran to a record. -/
structure RetryRun (attempt : ℕ) (records : Records) (w : World) (retry : FlowPlan)
    (record : FlowRun) (issues : List DecisionIssue) (w' : World) : Prop where
  name : rep.retryFlow = some retry.name
  known : r.plan.flow? retry.name = some retry
  ran : ∃ inputs envelope,
    inputValue r retry.name rep.retryFlowInput scope.envelope records = .ok inputs ∧
    scope.envelope.withPayload (.obj inputs) = .ok envelope ∧
    run (retryCall scope retry envelope attempt) (w.append [.boundary (.retryInput flow.name) records,
      .flowStarted retry.name .retry]) = ((record, issues), w')

/-- How the part between two attempts ends: with a decision, or with nothing to stop the repeat. -/
inductive RetryRan (attempt : ℕ) (issues : List DecisionIssue) (records : Records) (w : World) :
    EStateM.Result Exn (Records × World) (Option RepeatDecision) → Prop
  | absent (absent : rep.retryFlow = none) : RetryRan attempt issues records w (.ok none (records, w))
  | unknown {id : String} (name : rep.retryFlow = some id) (unknown : r.plan.flow? id = none) :
      RetryRan attempt issues records w (.error .other (records, w))
  | inputFailed {retry : FlowPlan} {error : Exn} {failure : Failure} {w₁ : World}
      (name : rep.retryFlow = some retry.name) (known : r.plan.flow? retry.name = some retry)
      (input : inputValue r retry.name rep.retryFlowInput scope.envelope records = .error error)
      (of : FailureOf error failure)
      (idle : (w.append [.boundary (.retryInput flow.name) records]).Idle w₁) :
      RetryRan attempt issues records w (.ok (some (.stopped .failure issues none (some failure)))
        (setRetry retry.name (failedRetry retry failure) records, w₁.append [.failed failure]))
  | envelopeFailed {retry : FlowPlan} {inputs : Object} {error : Exn}
      (name : rep.retryFlow = some retry.name) (known : r.plan.flow? retry.name = some retry)
      (input : inputValue r retry.name rep.retryFlowInput scope.envelope records = .ok inputs)
      (envelope : scope.envelope.withPayload (.obj inputs) = .error error) :
      RetryRan attempt issues records w (.error error (records,
        w.append [.boundary (.retryInput flow.name) records, .flowStarted retry.name .retry]))
  | failed {retry : FlowPlan} {record : FlowRun} {retryIssues : List DecisionIssue} {w' : World}
      (ran : RetryRun r run flow rep scope attempt records w retry record retryIssues w')
      (status : record.status = .failed) :
      RetryRan attempt issues records w (.ok (some (.stopped .failure issues none record.error))
        (setRetry retry.name record records, w'))
  | review {retry : FlowPlan} {record : FlowRun} {retryIssues : List DecisionIssue} {w' : World}
      (ran : RetryRun r run flow rep scope attempt records w retry record retryIssues w')
      (status : record.status = .needsReview) :
      RetryRan attempt issues records w
        (.ok (some (.stopped .review retryIssues (some .needsReview) none))
          (setRetry retry.name record records, w'))
  | conditionFailed {retry : FlowPlan} {record : FlowRun} {retryIssues : List DecisionIssue}
      {w' : World} {condition : ConditionPlan} {error : Exn}
      (ran : RetryRun r run flow rep scope attempt records w retry record retryIssues w')
      (failed : record.status ≠ .failed) (review : record.status ≠ .needsReview)
      (continueWhen : rep.continueWhen = some condition)
      (value : evaluateCondition r.services.tables
        (workflowContext scope.envelope (setRetry retry.name record records)) condition =
          .error error) :
      RetryRan attempt issues records w (.error error (setRetry retry.name record records, w'))
  | stop {retry : FlowPlan} {record : FlowRun} {retryIssues : List DecisionIssue}
      {w' : World} {condition : ConditionPlan}
      (ran : RetryRun r run flow rep scope attempt records w retry record retryIssues w')
      (failed : record.status ≠ .failed) (review : record.status ≠ .needsReview)
      (continueWhen : rep.continueWhen = some condition)
      (value : evaluateCondition r.services.tables
        (workflowContext scope.envelope (setRetry retry.name record records)) condition =
          .ok false) :
      RetryRan attempt issues records w (.ok (some (.stopped .continueWhen issues none none))
        (setRetry retry.name record records,
          w'.append [.conditionEvaluated "repeat.retry.continue_when" false]))
  | goOn {retry : FlowPlan} {record : FlowRun} {retryIssues : List DecisionIssue} {w' : World}
      {events : List Event}
      (ran : RetryRun r run flow rep scope attempt records w retry record retryIssues w')
      (failed : record.status ≠ .failed) (review : record.status ≠ .needsReview)
      (continues : (rep.continueWhen = none ∧ events = []) ∨ ∃ condition,
        rep.continueWhen = some condition ∧
        evaluateCondition r.services.tables
          (workflowContext scope.envelope (setRetry retry.name record records)) condition =
            .ok true ∧ events = [.conditionEvaluated "repeat.retry.continue_when" true]) :
      RetryRan attempt issues records w
        (.ok none (setRetry retry.name record records, w'.append events))

/-- What succeeds is handed on as a success. -/
theorem caught_bind_ok {σ α β : Type} {x : Exec σ α} {f : Except Exn α → Exec σ β}
    {s s' : σ × World} {a : α} (h : x s = .ok a s') : (caught x >>= f) s = f (.ok a) s' := by
  refine bind_ok ?_
  rw [caught, h]

/-- What fails is handed on as a failure, with what it did to the state. -/
theorem caught_bind_error {σ α β : Type} {x : Exec σ α} {f : Except Exn α → Exec σ β}
    {s s' : σ × World} {e : Exn} (h : x s = .error e s') :
    (caught x >>= f) s = f (.error e) s' := by
  refine bind_ok ?_
  rw [caught, h]

/-- One retry run: its input, its flow and what it says about another attempt. -/
theorem runRetry_ran (attempt : ℕ) (issues : List DecisionIssue) (records : Records) (w : World) :
    RetryRan r run flow rep scope attempt issues records w
      (runRetry r run flow rep scope attempt issues (records, w)) := by
  unfold runRetry
  cases name : rep.retryFlow with
  | none => exact .absent name
  | some id =>
    cases known : r.plan.flow? id with
    | none =>
      simp only [known]
      exact .unknown name known
    | some retry =>
      obtain rfl := WorkflowPlan.flow?_name known
      simp only [known]
      -- up to the run of the retry flow an exception is recorded as a failure; past it, it leaves
      have applied := flowInput_apply r (.retryInput flow.name) retry.name rep.retryFlowInput
        scope.envelope records w
      cases input : inputValue r retry.name rep.retryFlowInput scope.envelope records with
      | error error =>
        rw [lift_error _ input] at applied
        obtain ⟨failure, w₁, recorded, of, idle⟩ :=
          recordFailure_spec r error (w.append [.boundary (.retryInput flow.name) records])
        rw [caught_bind_error applied]
        simp only
        rw [total_bind, recorded, update_bind]
        exact .inputFailed name known input of idle
      | ok inputs =>
        rw [lift_ok _ input] at applied
        rw [caught_bind_ok applied]
        simp only
        rw [emit_bind, World.append_append, List.singleton_append]
        cases received : scope.envelope.withPayload (.obj inputs) with
        | error error =>
          rw [bind_error (lift_error _ rfl)]
          exact .envelopeFailed name known input received
        | ok envelope =>
          rw [bind_ok (lift_ok _ rfl)]
          cases ran : run (retryCall scope retry envelope attempt)
              (w.append [.boundary (.retryInput flow.name) records,
                .flowStarted retry.name .retry]) with
          | mk result w' =>
            obtain ⟨record, retryIssues⟩ := result
            have called : RetryRun r run flow rep scope attempt records w retry record retryIssues
                w' := ⟨name, known, inputs, envelope, input, received, ran⟩
            rw [total_bind]
            simp only [ran]
            rw [update_bind]
            -- the retry flow ran: its status comes first, then `continue_when`
            by_cases failed : record.status = .failed
            · rw [afterRetry, if_pos failed]
              exact .failed called failed
            by_cases review : record.status = .needsReview
            · rw [afterRetry, if_neg failed, if_pos review]
              exact .review called review
            rw [afterRetry, if_neg failed, if_neg review]
            cases continueWhen : rep.continueWhen with
            | none =>
              have goesOn : RetryRan r run flow rep scope attempt issues records w
                  (.ok none (setRetry retry.name record records, w'.append [])) :=
                .goOn called failed review (.inl ⟨continueWhen, rfl⟩)
              rwa [World.append_nil] at goesOn
            | some condition =>
              simp only
              rw [locals_bind]
              cases value : evaluateCondition r.services.tables
                  (workflowContext scope.envelope (setRetry retry.name record records)) condition with
              | error error =>
                rw [bind_error (holds_error r _ value)]
                exact .conditionFailed called failed review continueWhen value
              | ok result =>
                rw [bind_ok (holds_ok r _ value)]
                cases result with
                | true => exact .goOn called failed review (.inr ⟨condition, continueWhen, value, rfl⟩)
                | false => exact .stop called failed review continueWhen value

/-- How the decision after an attempt ends. -/
inductive DecisionRan (record : FlowRun) (attempt : ℕ) (issues : List DecisionIssue)
    (records : Records) (w : World) : EStateM.Result Exn (Records × World) RepeatDecision → Prop
  | failure (status : record.status = .failed) :
      DecisionRan record attempt issues records w
      (.ok (.stopped .failure issues none none) (records, w))
  | review (status : record.status = .needsReview) :
      DecisionRan record attempt issues records w
      (.ok (.stopped .review issues none none) (records, w))
  | untilFailed {error : Exn} (failed : record.status ≠ .failed)
        (review : record.status ≠ .needsReview)
      (value : evaluateCondition r.services.tables (workflowContext scope.envelope records)
        rep.untilCondition = .error error) :
      DecisionRan record attempt issues records w (.error error (records, w))
  | untilMet (failed : record.status ≠ .failed) (review : record.status ≠ .needsReview)
      (value : evaluateCondition r.services.tables (workflowContext scope.envelope records)
        rep.untilCondition = .ok true) :
      DecisionRan record attempt issues records w (.ok (.stopped .untilMet issues none none)
        (records, w.append [.conditionEvaluated "repeat.until" true]))
  | exhausted (failed : record.status ≠ .failed) (review : record.status ≠ .needsReview)
      (value : evaluateCondition r.services.tables (workflowContext scope.envelope records)
        rep.untilCondition = .ok false) (last : rep.maxAttempts ≤ attempt) :
      DecisionRan record attempt issues records w (.ok (.stopped .exhausted issues none none)
        (records, w.append [.conditionEvaluated "repeat.until" false]))
  | retryRaised {error : Exn} {records' : Records} {w' : World}
      (failed : record.status ≠ .failed) (review : record.status ≠ .needsReview)
      (value : evaluateCondition r.services.tables (workflowContext scope.envelope records)
        rep.untilCondition = .ok false) (more : attempt < rep.maxAttempts)
      (retry : RetryRan r run flow rep scope attempt issues records
        (w.append [.conditionEvaluated "repeat.until" false]) (.error error (records', w'))) :
      DecisionRan record attempt issues records w (.error error (records', w'))
  | retryStopped {decision : RepeatDecision} {records' : Records} {w' : World}
      (failed : record.status ≠ .failed) (review : record.status ≠ .needsReview)
      (value : evaluateCondition r.services.tables (workflowContext scope.envelope records)
        rep.untilCondition = .ok false) (more : attempt < rep.maxAttempts)
      (retry : RetryRan r run flow rep scope attempt issues records
        (w.append [.conditionEvaluated "repeat.until" false]) (.ok (some decision) (records', w'))) :
      DecisionRan record attempt issues records w (.ok decision (records', w'))
  | nextFailed {records' : Records} {w₁ w₂ w₃ : World} {error : Exn} {failure : Failure}
      (failed : record.status ≠ .failed) (review : record.status ≠ .needsReview)
      (value : evaluateCondition r.services.tables (workflowContext scope.envelope records)
        rep.untilCondition = .ok false) (more : attempt < rep.maxAttempts)
      (retry : RetryRan r run flow rep scope attempt issues records
        (w.append [.conditionEvaluated "repeat.until" false]) (.ok none (records', w₁)))
      (next : NextRan r flow rep scope records' w₁ (.error error (records', w₂)))
      (of : FailureOf error failure) (idle : w₂.Idle w₃) :
      DecisionRan record attempt issues records w
        (.ok (.stopped .failure issues none (some failure)) (records', w₃.append [.failed failure]))
  | again {records' : Records} {w₁ w' : World} {inputs : Object}
      (failed : record.status ≠ .failed) (review : record.status ≠ .needsReview)
      (value : evaluateCondition r.services.tables (workflowContext scope.envelope records)
        rep.untilCondition = .ok false) (more : attempt < rep.maxAttempts)
      (retry : RetryRan r run flow rep scope attempt issues records
        (w.append [.conditionEvaluated "repeat.until" false]) (.ok none (records', w₁)))
      (next : NextRan r flow rep scope records' w₁ (.ok inputs (records', w'))) :
      DecisionRan record attempt issues records w (.ok (.again issues inputs) (records', w'))

variable {r flow rep scope} in
/-- Binding the next input leaves the records as they are. -/
theorem NextRan.records_eq {records : Records} {w : World}
    {result : EStateM.Result Exn (Records × World) Object}
    (h : NextRan r flow rep scope records w result) :
    (∃ error w', result = .error error (records, w')) ∨
      ∃ inputs w', result = .ok inputs (records, w') := by
  cases h with
  | late => exact .inl ⟨_, _, rfl⟩
  | failed => exact .inl ⟨_, _, rfl⟩
  | bound => exact .inr ⟨_, _, rfl⟩

/-- What is decided after an attempt: the end of the repeat or the next input. -/
theorem repeatDecision_ran (record : FlowRun) (attempt : ℕ) (issues : List DecisionIssue)
    (records : Records) (w : World) :
    DecisionRan r run flow rep scope record attempt issues records w
      (repeatDecision r run flow rep scope record attempt issues (records, w)) := by
  unfold repeatDecision
  by_cases failed : record.status = .failed
  · rw [if_pos failed]
    exact .failure failed
  by_cases review : record.status = .needsReview
  · rw [if_neg failed, if_pos review]
    exact .review review
  rw [if_neg failed, if_neg review, locals_bind]
  cases value : evaluateCondition r.services.tables (workflowContext scope.envelope records)
      rep.untilCondition with
  | error error =>
    rw [bind_error (holds_error r _ value)]
    exact .untilFailed failed review value
  | ok met =>
    rw [bind_ok (holds_ok r _ value)]
    cases met with
    | true =>
      rw [if_pos rfl]
      exact .untilMet failed review value
    | false =>
      rw [if_neg Bool.false_ne_true]
      by_cases last : rep.maxAttempts ≤ attempt
      · rw [if_pos last]
        exact .exhausted failed review value last
      have more := Nat.lt_of_not_le last
      rw [if_neg last]
      -- another attempt is due: the retry flow runs first, then the next input is bound
      have retry := runRetry_ran r run flow rep scope attempt issues records
        (w.append [.conditionEvaluated "repeat.until" false])
      cases ended : runRetry r run flow rep scope attempt issues
          (records, w.append [.conditionEvaluated "repeat.until" false]) with
      | error error s =>
        rw [ended] at retry
        rw [bind_error ended]
        exact .retryRaised failed review value more retry
      | ok decision s =>
        rw [ended] at retry
        rw [bind_ok ended]
        cases decision with
        | some decision => exact .retryStopped failed review value more retry
        | none =>
          have next := nextInputs_ran r flow rep scope s.1 s.2
          simp only
          rcases next.records_eq with ⟨error, w₂, bound⟩ | ⟨inputs, w₂, bound⟩
          · rw [bound] at next
            obtain ⟨failure, w₃, recorded, of, idle⟩ := recordFailure_spec r error w₂
            rw [caught_bind_error bound]
            simp only
            rw [total_bind, recorded]
            exact .nextFailed failed review value more retry next of idle
          · rw [bound] at next
            rw [caught_bind_ok bound]
            exact .again failed review value more retry next

end Repeat

/-! ## Collections -/

section Collection

variable (r : WorkflowRunner) (run : FlowCall → World → (FlowRun × List DecisionIssue) × World)

/-- A computation over data of its own hands the data back. -/
theorem within_ok {τ α : Type} {data : τ} {x : Exec τ α} {s : Unit × World} {a : α} {t : τ}
    {w : World} (h : x (data, s.2) = .ok a (t, w)) : within data x s = .ok (a, t) ((), w) := by
  rw [within, h]

/-- A computation over data of its own keeps only the world when it fails. -/
theorem within_error {τ α : Type} {data : τ} {x : Exec τ α} {s : Unit × World} {e : Exn} {t : τ}
    {w : World} (h : x (data, s.2) = .error e (t, w)) : within data x s = .error e ((), w) := by
  rw [within, h]

/-- How the remaining attempts of a repeated item end. -/
inductive AttemptsRan (rep : RepeatPlan) (item : Item) (scope : RepeatScope) :
    ℕ → List FlowRun → Records → Object → World → EStateM.Result Exn (Unit × World) ItemRun → Prop
  | none {attempts : List FlowRun} {records : Records} {inputs : Object} {w : World} :
      AttemptsRan rep item scope 0 attempts records inputs w
        (.error (.service ErrorCode.invalidConfiguration.error)
          ((), w.append [.misrouted .attemptsExhausted]))
  | envelopeFailed {remaining : ℕ} {attempts : List FlowRun} {records : Records} {inputs : Object}
      {w : World} {error : Exn} (received : scope.envelope.withPayload (.obj inputs) = .error error) :
      AttemptsRan rep item scope (remaining + 1) attempts records inputs w
        (.error error ((), w.append [.flowStarted item.flow.name .callable]))
  | decisionFailed {remaining : ℕ} {attempts : List FlowRun} {records records' : Records}
      {inputs : Object} {envelope : AcceptedEnvelope} {record : FlowRun}
      {issues : List DecisionIssue} {w w₁ w₂ : World} {error : Exn}
      (received : scope.envelope.withPayload (.obj inputs) = .ok envelope)
      (ran : run (itemCall item scope.collectionDepth envelope (attempts.length + 1))
        (w.append [.flowStarted item.flow.name .callable]) = ((record, issues), w₁))
      (decision : DecisionRan r run item.flow rep scope record (attempts.length + 1) issues
        (setAttempt item.flow.name record attempts records) w₁ (.error error (records', w₂))) :
      AttemptsRan rep item scope (remaining + 1) attempts records inputs w (.error error ((), w₂))
  | again {remaining : ℕ} {attempts : List FlowRun} {records records' : Records}
      {inputs inputs' : Object} {envelope : AcceptedEnvelope} {record : FlowRun}
      {issues issues' : List DecisionIssue} {w w₁ w₂ : World}
      {result : EStateM.Result Exn (Unit × World) ItemRun}
      (received : scope.envelope.withPayload (.obj inputs) = .ok envelope)
      (ran : run (itemCall item scope.collectionDepth envelope (attempts.length + 1))
        (w.append [.flowStarted item.flow.name .callable]) = ((record, issues), w₁))
      (decision : DecisionRan r run item.flow rep scope record (attempts.length + 1) issues
        (setAttempt item.flow.name record attempts records) w₁
        (.ok (.again issues' inputs') (records', w₂)))
      (rest : AttemptsRan rep item scope remaining (attempts ++ [record])
        (Dict.set item.flow.name { toFlowRun := record, attempts := attempts ++ [record] } records')
        inputs' w₂ result) :
      AttemptsRan rep item scope (remaining + 1) attempts records inputs w result
  | stopped {remaining : ℕ} {attempts : List FlowRun} {records records' : Records}
      {inputs : Object} {envelope : AcceptedEnvelope} {record : FlowRun}
      {issues issues' : List DecisionIssue} {w w₁ w₂ : World} {stop : RepeatStop}
      {status : Option Status} {failure : Option Failure}
      (received : scope.envelope.withPayload (.obj inputs) = .ok envelope)
      (ran : run (itemCall item scope.collectionDepth envelope (attempts.length + 1))
        (w.append [.flowStarted item.flow.name .callable]) = ((record, issues), w₁))
      (decision : DecisionRan r run item.flow rep scope record (attempts.length + 1) issues
        (setAttempt item.flow.name record attempts records) w₁
        (.ok (.stopped stop issues' status failure) (records', w₂))) :
      AttemptsRan rep item scope (remaining + 1) attempts records inputs w
        (.ok { record := decided record (attempts ++ [record]) (.stopped stop issues' status failure)
               retry := rep.retryFlow.bind fun name => (Dict.set item.flow.name
                 (decided record (attempts ++ [record]) (.stopped stop issues' status failure))
                 records').lookup name
               failure := failure } ((), w₂.append [.repeatStopped stop]))

/-- The attempts of one item, from some attempt on. -/
theorem runItemAttempts_ran (rep : RepeatPlan) (item : Item) (scope : RepeatScope) (remaining : ℕ)
    (attempts : List FlowRun) (records : Records) (inputs : Object) (w : World) :
    AttemptsRan r run rep item scope remaining attempts records inputs w
      (runItemAttempts r run rep item scope remaining attempts records inputs ((), w)) := by
  induction remaining generalizing attempts records inputs w with
  | zero => exact .none
  | succ remaining ih =>
    unfold runItemAttempts
    rw [emit_bind]
    cases received : scope.envelope.withPayload (.obj inputs) with
    | error error =>
      rw [bind_error (lift_error _ rfl)]
      exact .envelopeFailed received
    | ok envelope =>
      rw [bind_ok (lift_ok _ rfl), total_bind]
      cases ran : run (itemCall item scope.collectionDepth envelope (attempts.length + 1))
          (w.append [.flowStarted item.flow.name .callable]) with
      | mk result w₁ =>
        obtain ⟨record, issues⟩ := result
        dsimp only
        have decision := repeatDecision_ran r run item.flow rep scope record (attempts.length + 1)
          issues (setAttempt item.flow.name record attempts records) w₁
        cases ended : repeatDecision r run item.flow rep scope record (attempts.length + 1) issues
            (setAttempt item.flow.name record attempts records, w₁) with
        | error error s =>
          rw [ended] at decision
          rw [bind_error (within_error ended)]
          exact .decisionFailed received ran decision
        | ok choice s =>
          rw [ended] at decision
          rw [bind_ok (within_ok ended)]
          cases choice with
          | again issues' inputs' => exact .again received ran decision (ih ..)
          | stopped stop issues' status failure => exact .stopped received ran decision

/-- How a collection item ends. -/
inductive ItemRan (call : CollectionCall) (item : Item) (w : World) :
    EStateM.Result Exn (Unit × World) ItemRun → Prop
  | envelopeFailed {error : Exn}
      (received : call.envelope.withPayload (.obj item.payload) = .error error) :
      ItemRan call item w (.error error ((), w))
  | once {envelope : AcceptedEnvelope} {record : FlowRun} {issues : List DecisionIssue} {w' : World}
      (received : call.envelope.withPayload (.obj item.payload) = .ok envelope)
      (single : item.flow.repeatPlan = none)
      (ran : run (itemCall item (call.collectionDepth + 1) envelope 1)
        (w.append [.flowStarted item.flow.name .callable]) = ((record, issues), w')) :
      ItemRan call item w (.ok { record := { toFlowRun := record } } ((), w'))
  | repeated {envelope : AcceptedEnvelope} {rep : RepeatPlan}
      {result : EStateM.Result Exn (Unit × World) ItemRun}
      (received : call.envelope.withPayload (.obj item.payload) = .ok envelope)
      (repeats : item.flow.repeatPlan = some rep)
      (ran : AttemptsRan r run rep item (itemScope call item envelope) rep.maxAttempts [] []
        item.payload w result) :
      ItemRan call item w result

/-- One item of a collection, repeated or not. -/
theorem runItem_ran (call : CollectionCall) (item : Item) (w : World) :
    ItemRan r run call item w (runItem r run call item ((), w)) := by
  unfold runItem
  cases received : call.envelope.withPayload (.obj item.payload) with
  | error error =>
    rw [bind_error (lift_error _ rfl)]
    exact .envelopeFailed received
  | ok envelope =>
    rw [bind_ok (lift_ok _ rfl)]
    cases repeats : item.flow.repeatPlan with
    | some rep => exact .repeated received repeats (runItemAttempts_ran ..)
    | none =>
      simp only
      rw [emit_bind, total_bind]
      exact .once received repeats rfl

/-- How the remaining items of a collection end. -/
inductive ItemsRan (call : CollectionCall) : Usage → Status → List Item → World →
    EStateM.Result Exn (Unit × World) ItemsRun → Prop
  | done {usage : Usage} {status : Status} {w : World} :
      ItemsRan call usage status [] w (.ok ⟨[], usage, status, none⟩ ((), w))
  | raised {usage : Usage} {status : Status} {item : Item} {rest : List Item} {w w' : World}
      {error : Exn} (ran : ItemRan r run call item w (.error error ((), w'))) :
      ItemsRan call usage status (item :: rest) w (.error error ((), w'))
  | failed {usage : Usage} {status : Status} {item : Item} {rest : List Item} {w w' : World}
      {ran : ItemRun} (ended : ItemRan r run call item w (.ok ran ((), w')))
      (fails : ran.record.status = .failed ∨ ran.failure.isSome) :
      ItemsRan call usage status (item :: rest) w
        (.ok ⟨ran :: rest.map fun item => { record := skipped item.flow }, ran.addUsage usage,
          .failed, ran.failure <|> ran.record.error⟩ ((), w'))
  | restRaised {usage : Usage} {status : Status} {item : Item} {rest : List Item} {w w₁ w' : World}
      {ran : ItemRun} {error : Exn} (ended : ItemRan r run call item w (.ok ran ((), w₁)))
      (fails : ¬ (ran.record.status = .failed ∨ ran.failure.isSome))
      (others : ItemsRan call (ran.addUsage usage)
        (if ran.record.status = .needsReview then .needsReview else status) rest w₁
        (.error error ((), w'))) :
      ItemsRan call usage status (item :: rest) w (.error error ((), w'))
  | next {usage : Usage} {status : Status} {item : Item} {rest : List Item} {w w₁ w' : World}
      {ran : ItemRun} {others : ItemsRun} (ended : ItemRan r run call item w (.ok ran ((), w₁)))
      (fails : ¬ (ran.record.status = .failed ∨ ran.failure.isSome))
      (remaining : ItemsRan call (ran.addUsage usage)
        (if ran.record.status = .needsReview then .needsReview else status) rest w₁
        (.ok others ((), w'))) :
      ItemsRan call usage status (item :: rest) w
        (.ok { others with items := ran :: others.items } ((), w'))

/-- The items of a collection, from some item on. -/
theorem runItems_ran (call : CollectionCall) (usage : Usage) (status : Status) (items : List Item)
    (w : World) :
    ItemsRan r run call usage status items w (runItems r run call usage status items ((), w)) := by
  induction items generalizing usage status w with
  | nil => exact .done
  | cons item rest ih =>
    unfold runItems
    have ran := runItem_ran r run call item w
    cases ended : runItem r run call item ((), w) with
    | error error s =>
      rw [ended] at ran
      rw [bind_error ended]
      exact .raised ran
    | ok first s =>
      rw [ended] at ran
      rw [bind_ok ended]
      by_cases fails : first.record.status = .failed ∨ first.failure.isSome
      · simp only [if_pos fails]
        exact .failed ran fails
      · simp only [if_neg fails]
        have others := ih (first.addUsage usage)
          (if first.record.status = .needsReview then .needsReview else status) s.2
        cases rests : runItems r run call (first.addUsage usage)
            (if first.record.status = .needsReview then .needsReview else status) rest
            ((), s.2) with
        | error error s' =>
          rw [rests] at others
          rw [bind_error rests]
          exact .restRaised ran fails others
        | ok others' s' =>
          rw [rests] at others
          rw [bind_ok rests]
          exact .next ran fails others

/-- Why a collection is refused before its first item. -/
def BatchError (error : Exn) : Prop :=
  (∃ code ∈ [ErrorCode.runTimeout, .invalidInput],
    error = .service code.error) ∨
    ∃ name payload, r.services.validateFlowInput name payload = .error error

/-- An accepted item of a batch. -/
structure Accepted (flows : List String) (raw : Json) (item : Item) : Prop where
  parts : itemParts raw = some (item.id, item.flow.name, item.payload)
  known : r.plan.flow? item.flow.name = some item.flow
  allowed : item.flow.name ∈ flows
  callable : item.flow.callable = true
  valid : r.services.validateFlowInput item.flow.name (.obj item.payload) = .ok ()

/-- How the validation of a batch ends. -/
inductive BatchRan (flows : List String) (raw : List Json) (w : World) :
    EStateM.Result Exn (Unit × World) (List Item) → Prop
  | refused {error : Exn} {w' : World} (cause : BatchError r error) (idle : w.Idle w') :
      BatchRan flows raw w (.error error ((), w'))
  | misrouted {name : String} {w' : World} (allowed : name ∈ flows)
      (unfit : ∀ flow, r.plan.flow? name = some flow → flow.callable = false) (idle : w.Idle w') :
      BatchRan flows raw w (.error (.service ErrorCode.invalidConfiguration.error)
        ((), w'.append [.misrouted .itemFlow]))
  | accepted {items : List Item} {w' : World} (each : List.Forall₂ (Accepted r flows) raw items)
      (idle : w.Idle w') : BatchRan flows raw w (.ok items ((), w'))

/-- The errors of a batch are the ones of its checks. -/
theorem batchError_of_code {code : ErrorCode}
    (h : code ∈ [ErrorCode.runTimeout, .invalidInput]) :
    BatchError r (.service code.error) :=
  .inl ⟨code, h, rfl⟩

/-- The check of the raw items, from some item on. -/
theorem validateItems_ran (flows seen : List String) (raw : List Json) (w : World) :
    BatchRan r flows raw w (validateItems r flows seen raw ((), w)) := by
  induction raw generalizing seen w with
  | nil => exact .accepted .nil (.refl w)
  | cons item rest ih =>
    unfold validateItems
    by_cases late : r.deadline ≤ r.services.clock w.reads
    · rw [checkDeadline_bind_late late]
      exact .refused (batchError_of_code r (by simp)) (.tick w)
    rw [checkDeadline_bind late]
    cases parts : itemParts item with
    | none => exact .refused (batchError_of_code r (by simp)) (.tick w)
    | some part =>
      obtain ⟨id, name, payload⟩ := part
      simp only
      -- the checks of one item in their order; only the clock is read on the way
      by_cases malformed : !isItemId id ∨ id ∈ seen ∨ name ∉ flows
      · rw [if_pos malformed]
        exact .refused (batchError_of_code r (by simp)) (.tick w)
      rw [if_neg malformed]
      have allowed : name ∈ flows := by
        by_contra h
        exact malformed (.inr (.inr h))
      cases known : r.plan.flow? name with
      | none =>
        -- the allowlist names a flow that the plan lacks, or that is not callable
        refine .misrouted allowed ?_ (.tick w)
        intro flow found
        rw [known] at found
        cases found
      | some flow =>
        simp only
        obtain rfl := WorkflowPlan.flow?_name known
        cases callable : flow.callable with
        | false =>
          rw [if_pos (by rfl)]
          refine .misrouted allowed ?_ (.tick w)
          intro other found
          rw [known] at found
          cases found
          exact callable
        | true =>
          rw [if_neg (by decide)]
          cases valid : r.services.validateFlowInput flow.name (.obj payload) with
          | error error =>
            rw [bind_error (lift_error _ rfl)]
            exact .refused (.inr ⟨_, _, valid⟩) (.tick w)
          | ok _ =>
            rw [bind_ok (lift_ok _ rfl)]
            have others := ih (id :: seen) w.tick
            cases rests : validateItems r flows (id :: seen) rest ((), w.tick) with
            | error error s =>
              rw [rests] at others
              rw [bind_error rests]
              cases others with
              | refused cause idle => exact .refused cause ((World.Idle.tick w).trans idle)
              | misrouted allowed unfit idle =>
                exact .misrouted allowed unfit ((World.Idle.tick w).trans idle)
            | ok items s =>
              rw [rests] at others
              rw [bind_ok rests]
              cases others with
              | accepted items idle =>
                exact .accepted (.cons ⟨parts, known, allowed, callable, valid⟩ items)
                  ((World.Idle.tick w).trans idle)

/-- How a collection step ends. -/
inductive CollectionRan (call : CollectionCall) (w : World) :
    EStateM.Result Exn (Unit × World) StepRecord → Prop
  | refused {error : Exn} {w' : World} (cause : BatchError r error) (idle : w.Idle w') :
      CollectionRan call w (.error error ((), w'))
  | tooDeep (depth : MAX_COLLECTION_DEPTH ≤ call.collectionDepth) :
      CollectionRan call w (.error (.service ErrorCode.invalidConfiguration.error)
        ((), w.tick.append [.misrouted .collectionDepth]))
  | misrouted {name : String} {w' : World} (allowed : name ∈ call.flows)
      (unfit : ∀ flow, r.plan.flow? name = some flow → flow.callable = false) (idle : w.Idle w') :
      CollectionRan call w (.error (.service ErrorCode.invalidConfiguration.error)
        ((), w'.append [.misrouted .itemFlow]))
  | itemsRaised {raw : List Json} {items : List Item} {w₁ w' : World} {error : Exn}
      (inputs : call.inputs = [("items", .arr raw)]) (bounded : raw.length ≤ call.maxItems)
      (depth : call.collectionDepth < MAX_COLLECTION_DEPTH)
      (accepted : List.Forall₂ (Accepted r call.flows) raw items) (idle : w.Idle w₁)
      (ran : ItemsRan r run call {} .completed items w₁ (.error error ((), w'))) :
      CollectionRan call w (.error error ((), w'))
  | ledgerRaised {raw : List Json} {items : List Item} {ran : ItemsRun} {w₁ w' : World} {error : Exn}
      (inputs : call.inputs = [("items", .arr raw)]) (bounded : raw.length ≤ call.maxItems)
      (depth : call.collectionDepth < MAX_COLLECTION_DEPTH)
      (accepted : List.Forall₂ (Accepted r call.flows) raw items) (idle : w.Idle w₁)
      (ended : ItemsRan r run call {} .completed items w₁ (.ok ran ((), w')))
      (ledger : ledgerEntries items ran.items = .error error) :
      CollectionRan call w (.error error ((), w'))
  | recorded {raw : List Json} {items : List Item} {ran : ItemsRun} {w₁ w' : World}
      {entries : List Json} {elapsed : ℚ}
      (inputs : call.inputs = [("items", .arr raw)]) (bounded : raw.length ≤ call.maxItems)
      (depth : call.collectionDepth < MAX_COLLECTION_DEPTH)
      (accepted : List.Forall₂ (Accepted r call.flows) raw items) (idle : w.Idle w₁)
      (ended : ItemsRan r run call {} .completed items w₁ (.ok ran ((), w')))
      (ledger : ledgerEntries items ran.items = .ok entries) :
      CollectionRan call w
        (.ok (ran.record (.obj [("items", .arr entries)]) elapsed) ((), w'.tick))

/-- A batch that is given as a list has it as its only input. -/
theorem batchItems_eq_some {inputs : Object} {raw : List Json} (h : batchItems inputs = some raw) :
    inputs = [("items", .arr raw)] := by
  unfold batchItems at h
  split at h
  · rw [Option.some.inj h]
  · cases h

/-- A whole collection: its checks, its items and their results. -/
theorem executeCollection_ran (call : CollectionCall) (w : World) :
    CollectionRan r run call w (executeCollection r run call ((), w)) := by
  unfold executeCollection
  rw [now_bind]
  by_cases depth : call.collectionDepth ≥ MAX_COLLECTION_DEPTH
  · rw [if_pos depth]
    exact .tooDeep depth
  rw [if_neg depth]
  have depth := Nat.lt_of_not_le depth
  cases batch : batchItems call.inputs with
  | none => exact .refused (batchError_of_code r (by simp)) (.tick w)
  | some raw =>
    have inputs := batchItems_eq_some batch
    simp only
    by_cases bounded : raw.length > call.maxItems
    · rw [if_pos bounded]
      exact .refused (batchError_of_code r (by simp)) (.tick w)
    rw [if_neg bounded]
    have bounded := Nat.le_of_not_lt bounded
    -- the whole batch is validated before any item runs
    have batch := validateItems_ran r call.flows [] raw w.tick
    cases validated : validateItems r call.flows [] raw ((), w.tick) with
    | error error s =>
      rw [validated] at batch
      rw [bind_error validated]
      cases batch with
      | refused cause idle => exact .refused cause ((World.Idle.tick w).trans idle)
      | misrouted allowed unfit idle =>
        exact .misrouted allowed unfit ((World.Idle.tick w).trans idle)
    | ok items s =>
      rw [validated] at batch
      rw [bind_ok validated]
      cases batch with
      | @accepted _ w₁ accepted idle =>
        have idle := (World.Idle.tick w).trans idle
        have ran := runItems_ran r run call {} .completed items w₁
        cases ended : runItems r run call {} .completed items ((), w₁) with
        | error error s =>
          rw [ended] at ran
          rw [bind_error ended]
          exact .itemsRaised inputs bounded depth accepted idle ran
        | ok ran' s =>
          rw [ended] at ran
          rw [bind_ok ended]
          -- the ledger is written last, and an amount may not fit into it
          cases ledger : ledgerEntries items ran'.items with
          | error error =>
            rw [bind_error (lift_error _ rfl)]
            exact .ledgerRaised inputs bounded depth accepted idle ran ledger
          | ok entries =>
            rw [bind_ok (lift_ok _ rfl), now_bind]
            exact .recorded inputs bounded depth accepted idle ran ledger

end Collection

end Foliqant.Core
