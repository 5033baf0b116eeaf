import Foliqant.Core.RepeatBehavior

/-!
# The rounds of a repeat

A round of a repeat is an attempt, the rules that stop the repeat after it, and otherwise a run of the
retry flow and the input of the next attempt. `Stops` and `Repeats` state the rules over the authored
conditions, the bound inputs and what the flows return, and the code decides as they say.
`RepeatTrace` follows the rounds up to the rule that stops them: the attempts and the runs of the retry
flow in the order of execution.
-/

namespace Foliqant.Core

open Exec JsonText

/-! ## The rules -/

/-- Why a repeat stopped. The first four are decided by the attempt itself, the others by what runs
between it and the next one. -/
inductive RepeatCause where
  | failure | review | untilMet | exhausted
  | retryInput | retryFailure | retryReview | continueWhen | nextInput
  deriving DecidableEq

namespace RepeatCause

/-- The reason the record gives. -/
def stop : RepeatCause → RepeatStop
  | failure | retryInput | retryFailure | nextInput => .failure
  | review | retryReview => .review
  | untilMet => .untilMet
  | exhausted => .exhausted
  | continueWhen => .continueWhen

/-- The attempt itself stopped the repeat, before a run of the retry flow. -/
def byAttempt : RepeatCause → Bool
  | failure | review | untilMet | exhausted => true
  | retryInput | retryFailure | retryReview | continueWhen | nextInput => false

/-- A review of the retry flow becomes the status of the repeated flow. -/
def status : RepeatCause → Option Status
  | retryReview => some .needsReview
  | _ => none

end RepeatCause

section Repeat

variable (r : WorkflowRunner) (run : FlowCall → World → (FlowRun × List DecisionIssue) × World)
  (flow : FlowPlan) (rep : RepeatPlan) (scope : RepeatScope)

/-- The attempt finished, `until` does not hold, and attempts are left. -/
structure Unmet (record : FlowRun) (attempt : ℕ) (records : Records) : Prop where
  failed : record.status ≠ .failed
  review : record.status ≠ .needsReview
  holds : evaluateCondition r.services.tables (workflowContext scope.envelope records)
    rep.untilCondition = .ok false
  more : attempt < rep.maxAttempts

/-- The world after `until` did not hold. -/
def World.unmet (w : World) : World := w.append [.conditionEvaluated "repeat.until" false]

/-- The world after the next input was bound in time. -/
def World.boundNext (flow : FlowPlan) (records : Records) (w : World) : World :=
  w.tick.append [.boundary (.nextInput flow.name) records]

/-- The runs of the retry flow between two attempts, when none of them stops the repeat, with the
records and the world after them. -/
inductive RetriedBetween (attempt : ℕ) (records : Records) (w : World) :
    List FlowRun → Records → World → Prop
  | absent (absent : rep.retryFlow = none) : RetriedBetween attempt records w [] records w
  | retried {retry : FlowPlan} {record : FlowRun} {issues : List DecisionIssue} {w' : World}
      (ran : RetryRun r run flow rep scope attempt records w retry record issues w')
      (failed : record.status ≠ .failed) (review : record.status ≠ .needsReview)
      (always : rep.continueWhen = none) :
      RetriedBetween attempt records w [record] (setRetry retry.name record records) w'
  | continued {retry : FlowPlan} {record : FlowRun} {issues : List DecisionIssue} {w' : World}
      {condition : ConditionPlan}
      (ran : RetryRun r run flow rep scope attempt records w retry record issues w')
      (failed : record.status ≠ .failed) (review : record.status ≠ .needsReview)
      (authored : rep.continueWhen = some condition)
      (holds : evaluateCondition r.services.tables
        (workflowContext scope.envelope (setRetry retry.name record records)) condition = .ok true) :
      RetriedBetween attempt records w [record] (setRetry retry.name record records)
        (w'.append [.conditionEvaluated "repeat.retry.continue_when" true])

/-- How the rules stop a repeat after an attempt: the rule, the runs of the retry flow after the
attempt, the issues and the failure the repeat ends with, and the records and the world after it. -/
structure RoundEnd where
  cause : RepeatCause
  retries : List FlowRun
  issues : List DecisionIssue
  failure : Option Failure
  records : Records
  world : World

/-- A rule stops the repeat after an attempt. -/
inductive Stops (record : FlowRun) (attempt : ℕ) (issues : List DecisionIssue) (records : Records)
    (w : World) : RoundEnd → Prop
  | failure (status : record.status = .failed) :
      Stops record attempt issues records w ⟨.failure, [], issues, none, records, w⟩
  | review (status : record.status = .needsReview) :
      Stops record attempt issues records w ⟨.review, [], issues, none, records, w⟩
  | untilMet (failed : record.status ≠ .failed) (review : record.status ≠ .needsReview)
      (holds : evaluateCondition r.services.tables (workflowContext scope.envelope records)
        rep.untilCondition = .ok true) :
      Stops record attempt issues records w ⟨.untilMet, [], issues, none, records,
        w.append [.conditionEvaluated "repeat.until" true]⟩
  | exhausted (failed : record.status ≠ .failed) (review : record.status ≠ .needsReview)
      (holds : evaluateCondition r.services.tables (workflowContext scope.envelope records)
        rep.untilCondition = .ok false) (last : rep.maxAttempts ≤ attempt) :
      Stops record attempt issues records w ⟨.exhausted, [], issues, none, records, w.unmet⟩
  | retryInput {retry : FlowPlan} {error : Exn} {failure : Failure} {w' : World}
      (unmet : Unmet r rep scope record attempt records) (name : rep.retryFlow = some retry.name)
      (known : r.plan.flow? retry.name = some retry)
      (input : inputValue r retry.name rep.retryFlowInput scope.envelope records = .error error)
      (recorded : recordFailure r error
        (w.unmet.append [.boundary (.retryInput flow.name) records]) = (failure, w')) :
      Stops record attempt issues records w ⟨.retryInput, [failedRetry retry failure], issues,
        some failure, setRetry retry.name (failedRetry retry failure) records, w'⟩
  | retryFailure {retry : FlowPlan} {retried : FlowRun}
        {retryIssues : List DecisionIssue} {w' : World}
      (unmet : Unmet r rep scope record attempt records)
      (ran : RetryRun r run flow rep scope attempt records w.unmet retry retried retryIssues w')
      (status : retried.status = .failed) :
      Stops record attempt issues records w ⟨.retryFailure, [retried], issues, retried.error,
        setRetry retry.name retried records, w'⟩
  | retryReview {retry : FlowPlan} {retried : FlowRun} {retryIssues : List DecisionIssue} {w' : World}
      (unmet : Unmet r rep scope record attempt records)
      (ran : RetryRun r run flow rep scope attempt records w.unmet retry retried retryIssues w')
      (status : retried.status = .needsReview) :
      Stops record attempt issues records w ⟨.retryReview, [retried], retryIssues, none,
        setRetry retry.name retried records, w'⟩
  | continueWhen {retry : FlowPlan} {retried : FlowRun}
        {retryIssues : List DecisionIssue} {w' : World}
      {condition : ConditionPlan} (unmet : Unmet r rep scope record attempt records)
      (ran : RetryRun r run flow rep scope attempt records w.unmet retry retried retryIssues w')
      (failed : retried.status ≠ .failed) (review : retried.status ≠ .needsReview)
      (authored : rep.continueWhen = some condition)
      (holds : evaluateCondition r.services.tables
        (workflowContext scope.envelope (setRetry retry.name retried records)) condition =
          .ok false) :
      Stops record attempt issues records w ⟨.continueWhen, [retried], issues, none,
        setRetry retry.name retried records,
        w'.append [.conditionEvaluated "repeat.retry.continue_when" false]⟩
  | late {retries : List FlowRun} {records' : Records} {failure : Failure} {w₁ w' : World}
      (unmet : Unmet r rep scope record attempt records)
      (between : RetriedBetween r run flow rep scope attempt records w.unmet retries records' w₁)
      (late : r.deadline ≤ r.services.clock w₁.reads)
      (recorded : recordFailure r (.service ErrorCode.runTimeout.error) w₁.tick = (failure, w')) :
      Stops record attempt issues records w ⟨.nextInput, retries, issues, some failure, records', w'⟩
  | nextInput {retries : List FlowRun} {records' : Records} {error : Exn} {failure : Failure}
      {w₁ w' : World} (unmet : Unmet r rep scope record attempt records)
      (between : RetriedBetween r run flow rep scope attempt records w.unmet retries records' w₁)
      (inTime : ¬ r.deadline ≤ r.services.clock w₁.reads)
      (next : nextValue r flow rep scope records' = .error error)
      (recorded : recordFailure r error (w₁.boundNext flow records') = (failure, w')) :
      Stops record attempt issues records w ⟨.nextInput, retries, issues, some failure, records', w'⟩

/-- No rule stops the repeat after an attempt: the runs of the retry flow, the records and the world
after them, and the input of the next attempt. -/
structure Repeats (record : FlowRun) (attempt : ℕ) (records : Records) (w : World)
    (retries : List FlowRun) (records' : Records) (w' : World) (inputs : Object) : Prop where
  unmet : Unmet r rep scope record attempt records
  between : RetriedBetween r run flow rep scope attempt records w.unmet retries records' w'
  inTime : ¬ r.deadline ≤ r.services.clock w'.reads
  next : nextValue r flow rep scope records' = .ok inputs

/-! ## What the rules decide -/

variable {r run flow rep scope}

/-- A retry flow whose input cannot be bound is recorded as failed. -/
theorem runRetry_unbound {attempt : ℕ} {issues : List DecisionIssue}
    {records : Records} {w w' : World}
    {retry : FlowPlan} {error : Exn} {failure : Failure} (name : rep.retryFlow = some retry.name)
    (known : r.plan.flow? retry.name = some retry)
    (input : inputValue r retry.name rep.retryFlowInput scope.envelope records = .error error)
    (recorded : recordFailure r error (w.append [.boundary (.retryInput flow.name) records]) =
      (failure, w')) :
    runRetry r run flow rep scope attempt issues (records, w) =
      .ok (some (.stopped .failure issues none (some failure)))
        (setRetry retry.name (failedRetry retry failure) records, w') := by
  have applied := flowInput_apply r (.retryInput flow.name) retry.name rep.retryFlowInput
    scope.envelope records w
  rw [lift_error _ input] at applied
  unfold runRetry
  simp only [name, known]
  rw [caught_bind_error applied]
  simp only
  rw [total_bind, recorded, update_bind]
  rfl

/-- A retry flow that ran is recorded before it decides. -/
theorem RetryRun.runRetry {attempt : ℕ} {records : Records} {w w' : World} {retry : FlowPlan}
    {record : FlowRun} {retryIssues : List DecisionIssue}
    (h : RetryRun r run flow rep scope attempt records w retry record retryIssues w')
    (issues : List DecisionIssue) :
    runRetry r run flow rep scope attempt issues (records, w) =
      afterRetry r rep scope issues record retryIssues
        (setRetry retry.name record records, w') := by
  obtain ⟨inputs, envelope, input, received, ran⟩ := h.ran
  have applied := flowInput_apply r (.retryInput flow.name) retry.name rep.retryFlowInput
    scope.envelope records w
  rw [lift_ok _ input] at applied
  unfold Core.runRetry
  simp only [h.name, h.known]
  rw [caught_bind_ok applied]
  simp only
  rw [emit_bind, World.append_append, List.singleton_append, bind_ok (lift_ok _ received), total_bind]
  simp only [ran]
  rw [update_bind]

/-- The runs of the retry flow between two attempts let the repeat go on. -/
theorem RetriedBetween.runRetry {attempt : ℕ} {records records' : Records} {w w' : World}
    {retries : List FlowRun}
    (h : RetriedBetween r run flow rep scope attempt records w retries records' w')
    (issues : List DecisionIssue) :
    runRetry r run flow rep scope attempt issues (records, w) = .ok none (records', w') := by
  cases h with
  | absent absent =>
    unfold Core.runRetry
    simp only [absent]
    rfl
  | retried ran failed review always =>
    rw [ran.runRetry, afterRetry, if_neg failed, if_neg review, always]
    rfl
  | continued ran failed review authored value =>
    rw [ran.runRetry, afterRetry, if_neg failed, if_neg review, authored]
    simp only
    rw [locals_bind, bind_ok (holds_ok r _ value), if_pos rfl]
    rfl

/-- The evaluation of `until`. -/
theorem Unmet.evaluated {record : FlowRun} {attempt : ℕ} {records : Records} {w : World}
    (h : Unmet r rep scope record attempt records) :
    Core.holds r "repeat.until" rep.untilCondition (workflowContext scope.envelope records)
      (records, w) = .ok false (records, w.unmet) :=
  holds_ok r _ h.holds

/-- Once `until` does not hold the retry flow runs. -/
theorem Unmet.retried {record : FlowRun} {attempt : ℕ} {records : Records} {w : World}
    {decision : RepeatDecision} {s : Records × World} {issues : List DecisionIssue}
    (h : Unmet r rep scope record attempt records)
    (retry : runRetry r run flow rep scope attempt issues (records, w.unmet) =
      .ok (some decision) s) :
    repeatDecision r run flow rep scope record attempt issues (records, w) = .ok decision s := by
  unfold repeatDecision
  rw [if_neg h.failed, if_neg h.review, locals_bind, bind_ok h.evaluated,
    if_neg Bool.false_ne_true, if_neg (Nat.not_le_of_lt h.more), bind_ok retry]
  rfl

/-- After the retry flow the next input is bound. -/
theorem Unmet.next {record : FlowRun} {attempt : ℕ} {records : Records} {w : World}
    {s s' : Records × World} {issues : List DecisionIssue} {inputs : Object}
    (h : Unmet r rep scope record attempt records)
    (retry : runRetry r run flow rep scope attempt issues (records, w.unmet) = .ok none s)
    (next : nextInputs r flow rep scope s = .ok inputs s') :
    repeatDecision r run flow rep scope record attempt issues (records, w) =
      .ok (.again issues inputs) s' := by
  unfold repeatDecision
  rw [if_neg h.failed, if_neg h.review, locals_bind, bind_ok h.evaluated,
    if_neg Bool.false_ne_true, if_neg (Nat.not_le_of_lt h.more), bind_ok retry]
  simp only
  rw [caught_bind_ok next]
  rfl

/-- A failure of the next input stops the repeat. -/
theorem Unmet.unbound {record : FlowRun} {attempt : ℕ} {records : Records} {w w' : World}
    {s s' : Records × World} {issues : List DecisionIssue} {error : Exn} {failure : Failure}
    (h : Unmet r rep scope record attempt records)
    (retry : runRetry r run flow rep scope attempt issues (records, w.unmet) = .ok none s)
    (next : nextInputs r flow rep scope s = .error error s')
    (recorded : recordFailure r error s'.2 = (failure, w')) :
    repeatDecision r run flow rep scope record attempt issues (records, w) =
      .ok (.stopped .failure issues none (some failure)) (s'.1, w') := by
  unfold repeatDecision
  rw [if_neg h.failed, if_neg h.review, locals_bind, bind_ok h.evaluated,
    if_neg Bool.false_ne_true, if_neg (Nat.not_le_of_lt h.more), bind_ok retry]
  simp only
  rw [caught_bind_error next]
  simp only
  rw [total_bind, recorded]
  rfl

/-- The code stops where a rule does. -/
theorem Stops.decided {record : FlowRun} {attempt : ℕ} {issues : List DecisionIssue}
    {records : Records} {w : World} {ended : RoundEnd}
    (h : Stops r run flow rep scope record attempt issues records w ended) :
    repeatDecision r run flow rep scope record attempt issues (records, w) =
      .ok (.stopped ended.cause.stop ended.issues ended.cause.status ended.failure)
        (ended.records, ended.world) := by
  cases h with
  | failure status =>
    rw [repeatDecision, if_pos status]
    rfl
  | review status =>
    rw [repeatDecision, if_neg (by rw [status]; exact Status.noConfusion), if_pos status]
    rfl
  | untilMet failed review value =>
    unfold repeatDecision
    rw [if_neg failed, if_neg review, locals_bind, bind_ok (holds_ok r _ value), if_pos rfl]
    rfl
  | exhausted failed review value last =>
    unfold repeatDecision
    rw [if_neg failed, if_neg review, locals_bind, bind_ok (holds_ok r _ value),
      if_neg Bool.false_ne_true, if_pos last]
    rfl
  | retryInput unmet name known input recorded =>
    exact unmet.retried (runRetry_unbound name known input recorded)
  | retryFailure unmet ran status =>
    refine unmet.retried (ran.runRetry issues |>.trans ?_)
    rw [afterRetry, if_pos status]
    rfl
  | retryReview unmet ran status =>
    refine unmet.retried (ran.runRetry issues |>.trans ?_)
    rw [afterRetry, if_neg (by rw [status]; exact Status.noConfusion), if_pos status]
    rfl
  | continueWhen unmet ran failed review authored value =>
    refine unmet.retried (ran.runRetry issues |>.trans ?_)
    rw [afterRetry, if_neg failed, if_neg review, authored]
    simp only
    rw [locals_bind, bind_ok (holds_ok r _ value), if_neg Bool.false_ne_true]
    rfl
  | @late retries records' failure w₁ w' unmet between late recorded =>
    have raised : nextInputs r flow rep scope (records', w₁) =
        .error (.service ErrorCode.runTimeout.error) (records', w₁.tick) := by
      unfold nextInputs
      rw [checkDeadline_bind_late late]
    exact unmet.unbound (between.runRetry issues) raised recorded
  | @nextInput retries records' error failure w₁ w' unmet between inTime next recorded =>
    have raised : nextInputs r flow rep scope (records', w₁) =
        .error error (records', w₁.boundNext flow records') := by
      rw [nextInputs_apply r flow rep scope inTime]
      exact lift_error _ next
    exact unmet.unbound (between.runRetry issues) raised recorded

/-- The code repeats the flow where no rule stops it. -/
theorem Repeats.decided {record : FlowRun} {attempt : ℕ} {records records' : Records} {w w' : World}
    {retries : List FlowRun} {inputs : Object}
    (h : Repeats r run flow rep scope record attempt records w retries records' w' inputs)
    (issues : List DecisionIssue) :
    repeatDecision r run flow rep scope record attempt issues (records, w) =
      .ok (.again issues inputs) (records', w'.boundNext flow records') := by
  refine h.unmet.next (h.between.runRetry issues) ?_
  rw [nextInputs_apply r flow rep scope h.inTime]
  exact lift_ok _ h.next

/-! ## Rounds -/

/-- The state of a repeat before a round: the earlier attempts, the records, the input of the next
attempt, and the world. -/
structure Round where
  attempts : List FlowRun
  records : Records
  inputs : Object
  world : World

/-- The records with the attempt of a round. -/
def Round.recorded (flow : FlowPlan) (round : Round) (record : FlowRun) : Records :=
  setAttempt flow.name record round.attempts round.records

/-- The round after one that repeats. -/
def Round.next (flow : FlowPlan) (round : Round) (record : FlowRun) (records : Records)
    (inputs : Object) (w : World) : Round where
  attempts := round.attempts ++ [record]
  records := setAttempt flow.name record round.attempts records
  inputs := inputs
  world := w.boundNext flow records

variable (r run flow rep scope) (call : AcceptedEnvelope → ℕ → FlowCall) (opened : World → World)

/-- The attempt of a round: the flow runs with the input of the round as its payload. -/
def RoundRan (round : Round) (record : FlowRun) (issues : List DecisionIssue) (w' : World) : Prop :=
  ∃ envelope, scope.envelope.withPayload (.obj round.inputs) = .ok envelope ∧
    run (call envelope (round.attempts.length + 1)) (opened round.world) = ((record, issues), w')

/-- How a repeat ended: the rule that stopped it, with all its attempts and the last of them. -/
structure RepeatEnd extends RoundEnd where
  attempts : List FlowRun
  last : FlowRun

/-- The record of the repeated flow. -/
def RepeatEnd.record (ended : RepeatEnd) : FlowRecord :=
  decided ended.last ended.attempts
    (.stopped ended.cause.stop ended.issues ended.cause.status ended.failure)

/-- The rounds of a repeat up to the rule that stops it. -/
inductive RepeatTrace : Round → RepeatEnd → Prop
  | stopped {round : Round} {record : FlowRun} {issues : List DecisionIssue} {w : World}
      {ended : RoundEnd} (ran : RoundRan run scope call opened round record issues w)
      (stops : Stops r run flow rep scope record (round.attempts.length + 1) issues
        (round.recorded flow record) w ended) :
      RepeatTrace round ⟨ended, round.attempts ++ [record], record⟩
  | again {round : Round} {record : FlowRun} {issues : List DecisionIssue} {retries : List FlowRun}
      {records : Records} {inputs : Object} {w w' : World} {ended : RepeatEnd}
      (ran : RoundRan run scope call opened round record issues w)
      (repeats : Repeats r run flow rep scope record (round.attempts.length + 1)
        (round.recorded flow record) w retries records w' inputs)
      (rest : RepeatTrace (round.next flow record records inputs w') ended) :
      RepeatTrace round { ended with retries := retries ++ ended.retries }

variable {r run flow rep scope call opened}

/-- A round that repeats adds one attempt. -/
@[simp] theorem Round.next_attempts_length (flow : FlowPlan) (round : Round) (record : FlowRun)
    (records : Records) (inputs : Object) (w : World) :
    (round.next flow record records inputs w).attempts.length = round.attempts.length + 1 := by
  rw [Round.next, List.length_append, List.length_singleton]

/-- The earlier attempts come first and the last one last, and the attempts stay in bounds. -/
theorem RepeatTrace.attempts_spec {round : Round} {ended : RepeatEnd}
    (h : RepeatTrace r run flow rep scope call opened round ended)
    (room : round.attempts.length < rep.maxAttempts) :
    ended.attempts.length ≤ rep.maxAttempts ∧ round.attempts.length < ended.attempts.length ∧
      ended.attempts.getLast? = some ended.last := by
  induction h with
  | @stopped round record =>
    have hlen : (round.attempts ++ [record]).length = round.attempts.length + 1 := by
      rw [List.length_append, List.length_singleton]
    refine ⟨?_, ?_, List.getLast?_concat ..⟩
    · show (round.attempts ++ [record]).length ≤ _
      omega
    · show _ < (round.attempts ++ [record]).length
      omega
  | again ran repeats rest ih =>
    have more := repeats.unmet.more
    rw [Round.next_attempts_length] at ih
    obtain ⟨bound, longer, last⟩ := ih more
    exact ⟨bound, Nat.lt_of_succ_lt longer, last⟩

/-- Between two attempts the retry flow runs once. -/
theorem RetriedBetween.length {attempt : ℕ} {records records' : Records} {w w' : World}
    {retries : List FlowRun}
    (h : RetriedBetween r run flow rep scope attempt records w retries records' w')
    (retry : rep.retryFlow ≠ none) : retries.length = 1 := by
  cases h with
  | absent absent => exact absurd absent retry
  | retried => rfl
  | continued => rfl

/-- After an attempt that stopped the repeat the retry flow did not run, otherwise it ran once. -/
theorem Stops.length {record : FlowRun} {attempt : ℕ} {issues : List DecisionIssue}
    {records : Records} {w : World} {ended : RoundEnd}
    (h : Stops r run flow rep scope record attempt issues records w ended)
    (retry : rep.retryFlow ≠ none) :
    ended.retries.length = if ended.cause.byAttempt then 0 else 1 := by
  cases h with
  | late unmet between => exact between.length retry
  | nextInput unmet between => exact between.length retry
  | failure => rfl
  | review => rfl
  | untilMet => rfl
  | exhausted => rfl
  | retryInput => rfl
  | retryFailure => rfl
  | retryReview => rfl
  | continueWhen => rfl

/-- The retry flow ran once after every attempt, but not after one that stopped the repeat itself. -/
theorem RepeatTrace.retries_length {round : Round} {ended : RepeatEnd}
    (h : RepeatTrace r run flow rep scope call opened round ended)
    (retry : rep.retryFlow ≠ none) :
    round.attempts.length + ended.retries.length + (if ended.cause.byAttempt then 1 else 0) =
      ended.attempts.length := by
  induction h with
  | @stopped round record _ _ ended ran stops =>
    have hlen := stops.length retry
    show round.attempts.length + ended.retries.length + (if ended.cause.byAttempt then 1 else 0) =
      (round.attempts ++ [record]).length
    rw [hlen, List.length_append, List.length_singleton]
    cases ended.cause.byAttempt <;> rfl
  | @again round record _ retries _ _ _ _ ended ran repeats rest ih =>
    have hlen := repeats.between.length retry
    rw [Round.next_attempts_length] at ih
    show round.attempts.length + (retries ++ ended.retries).length +
      (if ended.cause.byAttempt then 1 else 0) = ended.attempts.length
    rw [List.length_append, hlen]
    omega

/-- No run of an absent retry flow. -/
theorem RetriedBetween.none {attempt : ℕ} {records records' : Records} {w w' : World}
    {retries : List FlowRun}
    (h : RetriedBetween r run flow rep scope attempt records w retries records' w')
    (absent : rep.retryFlow = none) : retries = [] := by
  have hno : ∀ {name : String}, rep.retryFlow ≠ some name := fun retry =>
    Option.some_ne_none _ (retry.symm.trans absent)
  cases h with
  | absent => rfl
  | retried ran => exact absurd ran.name hno
  | continued ran => exact absurd ran.name hno

/-- A rule stops the repeat without a run of an absent retry flow. -/
theorem Stops.none {record : FlowRun} {attempt : ℕ} {issues : List DecisionIssue}
    {records : Records} {w : World} {ended : RoundEnd}
    (h : Stops r run flow rep scope record attempt issues records w ended)
    (absent : rep.retryFlow = none) : ended.retries = [] := by
  have hno : ∀ {name : String}, rep.retryFlow ≠ some name := fun retry =>
    Option.some_ne_none _ (retry.symm.trans absent)
  cases h with
  | late unmet between => exact between.none absent
  | nextInput unmet between => exact between.none absent
  | retryInput unmet named => exact absurd named hno
  | retryFailure unmet ran => exact absurd ran.name hno
  | retryReview unmet ran => exact absurd ran.name hno
  | continueWhen unmet ran => exact absurd ran.name hno
  | failure => rfl
  | review => rfl
  | untilMet => rfl
  | exhausted => rfl

/-- Without a retry flow none runs. -/
theorem RepeatTrace.none {round : Round} {ended : RepeatEnd}
    (h : RepeatTrace r run flow rep scope call opened round ended)
    (absent : rep.retryFlow = none) : ended.retries = [] := by
  induction h with
  | stopped ran stops => exact stops.none absent
  | again ran repeats rest ih =>
    show _ ++ _ = []
    rw [repeats.between.none absent, ih, List.nil_append]

/-! ## The records of the retry flow -/

/-- Record runs of the retry flow one after the other. -/
def setRetries (name : String) (retries : List FlowRun) (records : Records) : Records :=
  retries.foldl (fun records retry => setRetry name retry records) records

/-- Recording a run of the retry flow adds it to its earlier runs. -/
@[simp] theorem retryRuns_setRetry (name : String) (retry : FlowRun) (records : Records) :
    retryRuns name (setRetry name retry records) = retryRuns name records ++ [retry] := by
  rw [retryRuns, setRetry, Dict.lookup_set_self]
  rfl

/-- Recording another flow leaves the runs of the retry flow. -/
theorem retryRuns_set_ne {name other : String} (record : FlowRecord) (records : Records)
    (ne : name ≠ other) :
    retryRuns name (Dict.set other record records) = retryRuns name records := by
  rw [retryRuns, Dict.lookup_set_of_ne ne, retryRuns]

/-- Runs of the retry flow are recorded in order, after the earlier ones. -/
theorem retryRuns_setRetries (name : String) (retries : List FlowRun) (records : Records) :
    retryRuns name (setRetries name retries records) = retryRuns name records ++ retries := by
  induction retries generalizing records with
  | nil => exact (List.append_nil _).symm
  | cons retry retries ih =>
    show retryRuns name (setRetries name retries (setRetry name retry records)) = _
    rw [ih, retryRuns_setRetry, List.append_assoc, List.singleton_append]

/-- Between two attempts only the runs of the retry flow are recorded. -/
theorem RetriedBetween.records_eq {attempt : ℕ} {records records' : Records} {w w' : World}
    {retries : List FlowRun}
    (h : RetriedBetween r run flow rep scope attempt records w retries records' w') {name : String}
    (retry : rep.retryFlow = some name) : records' = setRetries name retries records := by
  cases h with
  | absent absent =>
    rw [retry] at absent
    cases absent
  | retried ran =>
    obtain rfl := Option.some.inj (retry.symm.trans ran.name)
    rfl
  | continued ran =>
    obtain rfl := Option.some.inj (retry.symm.trans ran.name)
    rfl

/-- Where a rule stops the repeat, only the runs of the retry flow were recorded. -/
theorem Stops.records_eq {record : FlowRun} {attempt : ℕ} {issues : List DecisionIssue}
    {records : Records} {w : World} {ended : RoundEnd}
    (h : Stops r run flow rep scope record attempt issues records w ended) {name : String}
    (retry : rep.retryFlow = some name) : ended.records = setRetries name ended.retries records := by
  have hown : ∀ {other : String} (retried : FlowRun), rep.retryFlow = some other →
      setRetry other retried records = setRetries name [retried] records := by
    intro other retried named
    obtain rfl := Option.some.inj (retry.symm.trans named)
    rfl
  cases h with
  | late unmet between => exact between.records_eq retry
  | nextInput unmet between => exact between.records_eq retry
  | retryInput unmet named => exact hown _ named
  | retryFailure unmet ran => exact hown _ ran.name
  | retryReview unmet ran => exact hown _ ran.name
  | continueWhen unmet ran => exact hown _ ran.name
  | failure => rfl
  | review => rfl
  | untilMet => rfl
  | exhausted => rfl

/-- The runs of the retry flow are recorded in order, after the earlier ones. -/
theorem RepeatTrace.retryRuns {round : Round} {ended : RepeatEnd}
    (h : RepeatTrace r run flow rep scope call opened round ended) {name : String}
    (retry : rep.retryFlow = some name) (ne : name ≠ flow.name) :
    retryRuns name ended.records = Core.retryRuns name round.records ++ ended.retries := by
  induction h with
  | stopped ran stops =>
    rw [stops.records_eq retry, retryRuns_setRetries, Round.recorded, setAttempt,
      retryRuns_set_ne _ _ ne]
  | again ran repeats rest ih =>
    rw [ih, Round.next, setAttempt, retryRuns_set_ne _ _ ne, repeats.between.records_eq retry,
      retryRuns_setRetries, Round.recorded, setAttempt, retryRuns_set_ne _ _ ne, List.append_assoc]

/-- The record of a retry flow that ran only in this repeat: its last run, with all of them. -/
def retryRecord (retries : List FlowRun) : Option FlowRecord :=
  retries.getLast?.map fun last => { toFlowRun := last, attempts := retries }

/-- Recording one more run of the retry flow. -/
theorem lookup_setRetry {name : String} {records : Records} {earlier : List FlowRun}
    (before : records.lookup name = retryRecord earlier) (retry : FlowRun) :
    (setRetry name retry records).lookup name = retryRecord (earlier ++ [retry]) := by
  have runs : Core.retryRuns name records = earlier := by
    rw [Core.retryRuns, before, retryRecord, Option.map_map]
    rcases List.eq_nil_or_concat earlier with rfl | ⟨others, last, rfl⟩
    · rfl
    · rw [List.concat_eq_append, List.getLast?_concat]
      rfl
  rw [setRetry, Dict.lookup_set_self, runs, retryRecord, List.getLast?_concat]
  rfl

/-- Recording runs of the retry flow. -/
theorem lookup_setRetries {name : String} {records : Records} {earlier : List FlowRun}
    (before : records.lookup name = retryRecord earlier) (retries : List FlowRun) :
    (setRetries name retries records).lookup name = retryRecord (earlier ++ retries) := by
  induction retries generalizing records earlier with
  | nil =>
    rw [List.append_nil]
    exact before
  | cons retry retries ih =>
    have next := ih (lookup_setRetry before retry)
    rwa [List.append_assoc, List.singleton_append] at next

/-- The record of the retry flow has its runs in this repeat. -/
theorem RepeatTrace.retryRecord {round : Round} {ended : RepeatEnd} {earlier : List FlowRun}
    (h : RepeatTrace r run flow rep scope call opened round ended) {name : String}
    (retry : rep.retryFlow = some name) (ne : name ≠ flow.name)
    (before : round.records.lookup name = retryRecord earlier) :
    ended.records.lookup name = Core.retryRecord (earlier ++ ended.retries) := by
  induction h generalizing earlier with
  | stopped ran stops =>
    rw [stops.records_eq retry]
    refine lookup_setRetries ?_ _
    rw [Round.recorded, setAttempt, Dict.lookup_set_of_ne ne, before]
  | again ran repeats rest ih =>
    show _ = Core.retryRecord (earlier ++ (_ ++ _))
    rw [← List.append_assoc]
    refine ih ?_
    rw [Round.next, setAttempt, Dict.lookup_set_of_ne ne, repeats.between.records_eq retry]
    refine lookup_setRetries ?_ _
    rw [Round.recorded, setAttempt, Dict.lookup_set_of_ne ne, before]

end Repeat

end Foliqant.Core
