import Foliqant.Compiler.GraphSpec
import Foliqant.Core.FlowShape
import Foliqant.Core.RepeatRounds
import Foliqant.Core.RunBehavior

/-!
# The protocol of a repeat

A routed flow and a collection item repeat in loops of their own that share the decision after an
attempt. The loops record what the rounds say exactly when nothing raises between two attempts, which
the code leaves open for inputs that nest too deeply.
-/

namespace Foliqant.Core

open Exec JsonText

/-! ## Rounds without an exception -/

section Repeat

variable {r : WorkflowRunner} {run : FlowCall → World → (FlowRun × List DecisionIssue) × World}
  {flow : FlowPlan} {rep : RepeatPlan} {scope : RepeatScope}
  {call : AcceptedEnvelope → ℕ → FlowCall} {opened : World → World}

variable (r run flow rep scope) in
/-- Deciding after an attempt raises nothing: the conditions that are due have a value, and the input of
a retry flow that is due does not nest too deeply. -/
structure DecisionFits (record : FlowRun) (attempt : ℕ) (records : Records) (w : World) : Prop where
  untilHolds : record.status ≠ .failed → record.status ≠ .needsReview →
    ∃ met, evaluateCondition r.services.tables (workflowContext scope.envelope records)
      rep.untilCondition = .ok met
  retryInput : Unmet r rep scope record attempt records → ∀ retry inputs,
    rep.retryFlow = some retry.name → r.plan.flow? retry.name = some retry →
    inputValue r retry.name rep.retryFlowInput scope.envelope records = .ok inputs →
    depth (.obj inputs) ≤ MAX_EXECUTION_JSON_DEPTH
  continueHolds : Unmet r rep scope record attempt records → ∀ retry retried issues w' condition,
    RetryRun r run flow rep scope attempt records w.unmet retry retried issues w' →
    retried.status ≠ .failed → retried.status ≠ .needsReview → rep.continueWhen = some condition →
    ∃ met, evaluateCondition r.services.tables
      (workflowContext scope.envelope (setRetry retry.name retried records)) condition = .ok met

variable (r run flow rep scope call opened) in
/-- A round raises nothing: the input of its attempt does not nest too deeply, and deciding after the
attempt raises nothing. -/
structure RoundFits (round : Round) : Prop where
  input : depth (.obj round.inputs) ≤ MAX_EXECUTION_JSON_DEPTH
  decision : ∀ record issues w, RoundRan run scope call opened round record issues w →
    DecisionFits r run flow rep scope record (round.attempts.length + 1)
      (round.recorded flow record) w

variable (r run flow rep scope call opened) in
/-- One round follows another: the flow ran, and no rule stopped the repeat. -/
inductive NextRound (round : Round) : Round → Prop
  | again {record : FlowRun} {issues : List DecisionIssue} {retries : List FlowRun}
        {records : Records}
      {inputs : Object} {w w' : World} (ran : RoundRan run scope call opened round record issues w)
      (repeats : Repeats r run flow rep scope record (round.attempts.length + 1)
        (round.recorded flow record) w retries records w' inputs) :
      NextRound round (round.next flow record records inputs w')

variable (r run flow rep scope call opened) in
/-- No round of a repeat raises, from the given one on. -/
def RepeatFits (round : Round) : Prop :=
  ∀ later, Relation.ReflTransGen (NextRound r run flow rep scope call opened) round later →
    RoundFits r run flow rep scope call opened later

/-- A payload that does not nest too deeply is received. -/
theorem withPayload_of_depth (envelope : AcceptedEnvelope) {payload : Json}
    (h : depth payload ≤ MAX_EXECUTION_JSON_DEPTH) :
    ∃ received, envelope.withPayload payload = .ok received := by
  rw [AcceptedEnvelope.withPayload, dif_pos h]
  exact ⟨_, rfl⟩

/-- A payload that is received does not nest too deeply. -/
theorem depth_of_withPayload {envelope received : AcceptedEnvelope} {payload : Json}
    (h : envelope.withPayload payload = .ok received) : depth payload ≤ MAX_EXECUTION_JSON_DEPTH := by
  unfold AcceptedEnvelope.withPayload at h
  by_contra deep
  rw [dif_neg deep] at h
  cases h

/-- When deciding raises nothing, the retry flow stops the repeat or lets it go on. -/
theorem DecisionFits.retried {record : FlowRun} {attempt : ℕ} {records : Records} {w : World}
    (fits : DecisionFits r run flow rep scope record attempt records w) (issues : List DecisionIssue)
    (unmet : Unmet r rep scope record attempt records)
    (known : ∀ name, rep.retryFlow = some name → r.plan.flow? name ≠ none) :
    (∃ ended, Stops r run flow rep scope record attempt issues records w ended) ∨
      ∃ retries records' w',
        RetriedBetween r run flow rep scope attempt records w.unmet retries records' w' := by
  cases name : rep.retryFlow with
  | none => exact .inr ⟨_, _, _, .absent name⟩
  | some id =>
    obtain ⟨retry, found⟩ := Option.ne_none_iff_exists'.mp (known id name)
    obtain rfl := WorkflowPlan.flow?_name found
    cases input : inputValue r retry.name rep.retryFlowInput scope.envelope records with
    | error error => exact .inl ⟨_, .retryInput unmet name found input rfl⟩
    | ok inputs =>
      -- `fits` bounds the depth of the input, so the envelope takes it
      obtain ⟨envelope, received⟩ := withPayload_of_depth scope.envelope
        (fits.retryInput unmet _ _ name found input)
      obtain ⟨⟨retried, retryIssues⟩, w', ran⟩ : ∃ result w',
          run (retryCall scope retry envelope attempt) (w.unmet.append
            [.boundary (.retryInput flow.name) records, .flowStarted retry.name .retry]) =
              (result, w') := ⟨_, _, rfl⟩
      have called : RetryRun r run flow rep scope attempt records w.unmet retry
          retried retryIssues w' :=
        ⟨name, found, inputs, envelope, input, received, ran⟩
      by_cases failed : retried.status = .failed
      · exact .inl ⟨_, .retryFailure unmet called failed⟩
      by_cases review : retried.status = .needsReview
      · exact .inl ⟨_, .retryReview unmet called review⟩
      cases authored : rep.continueWhen with
      | none => exact .inr ⟨_, _, _, .retried called failed review authored⟩
      | some condition =>
        obtain ⟨met, holds⟩ := fits.continueHolds unmet _ _ _ _ _ called failed review authored
        cases met with
        | true => exact .inr ⟨_, _, _, .continued called failed review authored holds⟩
        | false => exact .inl ⟨_, .continueWhen unmet called failed review authored holds⟩

/-- When deciding raises nothing, a rule stops the repeat or none does. -/
theorem DecisionFits.rule {record : FlowRun} {attempt : ℕ} {records : Records} {w : World}
    (fits : DecisionFits r run flow rep scope record attempt records w) (issues : List DecisionIssue)
    (known : ∀ name, rep.retryFlow = some name → r.plan.flow? name ≠ none) :
    (∃ ended, Stops r run flow rep scope record attempt issues records w ended) ∨
      ∃ retries records' w' inputs,
        Repeats r run flow rep scope record attempt records w retries records' w' inputs := by
  by_cases failed : record.status = .failed
  · exact .inl ⟨_, .failure failed⟩
  by_cases review : record.status = .needsReview
  · exact .inl ⟨_, .review review⟩
  obtain ⟨met, holds⟩ := fits.untilHolds failed review
  cases met with
  | true => exact .inl ⟨_, .untilMet failed review holds⟩
  | false =>
    by_cases last : rep.maxAttempts ≤ attempt
    · exact .inl ⟨_, .exhausted failed review holds last⟩
    have unmet : Unmet r rep scope record attempt records :=
      ⟨failed, review, holds, Nat.lt_of_not_le last⟩
    obtain stops | ⟨retries, records', w', between⟩ := fits.retried issues unmet known
    · exact .inl stops
    by_cases late : r.deadline ≤ r.services.clock w'.reads
    · exact .inl ⟨_, .late unmet between late rfl⟩
    cases next : nextValue r flow rep scope records' with
    | error error => exact .inl ⟨_, .nextInput unmet between late next rfl⟩
    | ok inputs => exact .inr ⟨_, _, _, _, unmet, between, late, next⟩

/-- The retry flow runs in one way. -/
theorem RetryRun.unique {attempt : ℕ} {records : Records} {w w₁ w₂ : World}
    {retry₁ retry₂ : FlowPlan} {record₁ record₂ : FlowRun} {issues₁ issues₂ : List DecisionIssue}
    (h₁ : RetryRun r run flow rep scope attempt records w retry₁ record₁ issues₁ w₁)
    (h₂ : RetryRun r run flow rep scope attempt records w retry₂ record₂ issues₂ w₂) :
    retry₁ = retry₂ ∧ record₁ = record₂ := by
  have hname := Option.some.inj (h₁.name.symm.trans h₂.name)
  have hretry : retry₁ = retry₂ := by
    have known := h₁.known
    rw [hname, h₂.known] at known
    exact (Option.some.inj known).symm
  subst hretry
  obtain ⟨inputs, envelope, input, receives, ran⟩ := h₁.ran
  obtain ⟨inputs', envelope', input', receives', ran'⟩ := h₂.ran
  obtain rfl := Except.ok.inj (input.symm.trans input')
  obtain rfl := Except.ok.inj (receives.symm.trans receives')
  have hran := ran.symm.trans ran'
  exact ⟨rfl, congrArg (fun result => result.1.1) hran⟩

/-- A retry flow that ran received its input. -/
theorem RetryRun.fits {attempt : ℕ} {records : Records} {w w' : World} {retry other : FlowPlan}
    {record : FlowRun} {issues : List DecisionIssue} {inputs : Object}
    (h : RetryRun r run flow rep scope attempt records w retry record issues w')
    (name : rep.retryFlow = some other.name)
    (input : inputValue r other.name rep.retryFlowInput scope.envelope records = .ok inputs) :
    depth (.obj inputs) ≤ MAX_EXECUTION_JSON_DEPTH := by
  obtain ⟨inputs', envelope, input', receives, -⟩ := h.ran
  rw [Option.some.inj (name.symm.trans h.name), input'] at input
  obtain rfl := Except.ok.inj input
  exact depth_of_withPayload receives

/-- Between two attempts the input of the retry flow fits unless it cannot be built. -/
theorem RetryRan.fits {attempt : ℕ} {issues : List DecisionIssue} {records : Records} {w : World}
    {choice : Option RepeatDecision} {s : Records × World}
    (h : RetryRan r run flow rep scope attempt issues records w (.ok choice s)) {other : FlowPlan}
    {inputs : Object} (name : rep.retryFlow = some other.name)
    (input : inputValue r other.name rep.retryFlowInput scope.envelope records = .ok inputs) :
    depth (.obj inputs) ≤ MAX_EXECUTION_JSON_DEPTH := by
  cases h with
  | absent absent =>
    rw [name] at absent
    cases absent
  | inputFailed name' known input' of idle =>
    rw [Option.some.inj (name.symm.trans name'), input'] at input
    cases input
  | failed ran status => exact ran.fits name input
  | review ran status => exact ran.fits name input
  | stop ran failed review continueWhen value => exact ran.fits name input
  | goOn ran failed review continues => exact ran.fits name input

/-- Between two attempts `continue_when` has a value once it is due. -/
theorem RetryRan.continueHolds {attempt : ℕ} {issues : List DecisionIssue} {records : Records}
    {w w' : World} {choice : Option RepeatDecision} {s : Records × World}
    (h : RetryRan r run flow rep scope attempt issues records w (.ok choice s)) {retry : FlowPlan}
    {retried : FlowRun} {retryIssues : List DecisionIssue} {condition : ConditionPlan}
    (ran : RetryRun r run flow rep scope attempt records w retry retried retryIssues w')
    (failed : retried.status ≠ .failed) (review : retried.status ≠ .needsReview)
    (authored : rep.continueWhen = some condition) :
    ∃ met, evaluateCondition r.services.tables
      (workflowContext scope.envelope (setRetry retry.name retried records)) condition = .ok met := by
  -- the retry flow runs once, so every case that says it ended otherwise is excluded
  cases h with
  | absent absent =>
    rw [ran.name] at absent
    cases absent
  | inputFailed name known input of idle =>
    obtain ⟨inputs, envelope, input', -⟩ := ran.ran
    rw [Option.some.inj (ran.name.symm.trans name), input] at input'
    cases input'
  | failed ran' status =>
    obtain ⟨-, rfl⟩ := ran.unique ran'
    exact absurd status failed
  | review ran' status =>
    obtain ⟨-, rfl⟩ := ran.unique ran'
    exact absurd status review
  | stop ran' failed' review' continueWhen value =>
    obtain ⟨rfl, rfl⟩ := ran.unique ran'
    obtain rfl := Option.some.inj (authored.symm.trans continueWhen)
    exact ⟨false, value⟩
  | goOn ran' failed' review' continues =>
    obtain ⟨rfl, rfl⟩ := ran.unique ran'
    rcases continues with ⟨none_, -⟩ | ⟨other, continueWhen, value, -⟩
    · rw [none_] at authored
      cases authored
    · obtain rfl := Option.some.inj (authored.symm.trans continueWhen)
      exact ⟨true, value⟩

/-- A decision that was made fits. -/
theorem DecisionRan.fits {record : FlowRun} {attempt : ℕ} {issues : List DecisionIssue}
    {records : Records} {w : World} {decision : RepeatDecision} {s : Records × World}
    (h : DecisionRan r run flow rep scope record attempt issues records w (.ok decision s)) :
    DecisionFits r run flow rep scope record attempt records w := by
  have hretry : Unmet r rep scope record attempt records →
      ∃ choice s, RetryRan r run flow rep scope attempt issues records w.unmet (.ok choice s) := by
    intro unmet
    cases h with
    | failure status => exact absurd status unmet.failed
    | review status => exact absurd status unmet.review
    | untilMet failed review value =>
      have hvalue := value.symm.trans unmet.holds
      cases hvalue
    | exhausted failed review value last => exact absurd unmet.more (Nat.not_lt_of_le last)
    | retryStopped failed review value more retry => exact ⟨_, _, retry⟩
    | nextFailed failed review value more retry => exact ⟨_, _, retry⟩
    | again failed review value more retry => exact ⟨_, _, retry⟩
  refine ⟨fun failed review => ?_, fun unmet retry inputs name known input => ?_,
    fun unmet retry retried _ _ condition ran failed review authored => ?_⟩
  · cases h with
    | failure status => exact absurd status failed
    | review status => exact absurd status review
    | untilMet _ _ value => exact ⟨_, value⟩
    | exhausted _ _ value => exact ⟨_, value⟩
    | retryStopped _ _ value => exact ⟨_, value⟩
    | nextFailed _ _ value => exact ⟨_, value⟩
    | again _ _ value => exact ⟨_, value⟩
  · obtain ⟨_, _, retried⟩ := hretry unmet
    exact retried.fits name input
  · obtain ⟨_, _, retried'⟩ := hretry unmet
    exact retried'.continueHolds ran failed review authored

/-- Deciding raised nothing where a rule stopped the repeat. -/
theorem Stops.fits {record : FlowRun} {attempt : ℕ} {issues : List DecisionIssue}
    {records : Records} {w : World} {ended : RoundEnd}
    (h : Stops r run flow rep scope record attempt issues records w ended) :
    DecisionFits r run flow rep scope record attempt records w := by
  have ran := repeatDecision_ran r run flow rep scope record attempt issues records w
  rw [h.decided] at ran
  exact ran.fits

/-- Deciding raised nothing where no rule stopped the repeat. -/
theorem Repeats.fits {record : FlowRun} {attempt : ℕ} {records records' : Records} {w w' : World}
    {retries : List FlowRun} {inputs : Object}
    (h : Repeats r run flow rep scope record attempt records w retries records' w' inputs) :
    DecisionFits r run flow rep scope record attempt records w := by
  have ran := repeatDecision_ran r run flow rep scope record attempt [] records w
  rw [h.decided] at ran
  exact ran.fits

/-- A round that repeats is not stopped by a rule. -/
theorem Stops.not_repeats {record : FlowRun} {attempt : ℕ} {issues : List DecisionIssue}
    {records records' : Records} {w w' : World} {ended : RoundEnd} {retries : List FlowRun}
    {inputs : Object} (h : Stops r run flow rep scope record attempt issues records w ended) :
    ¬ Repeats r run flow rep scope record attempt records w retries records' w' inputs := by
  intro repeats
  have same := h.decided.symm.trans (repeats.decided issues)
  cases same

/-- A round repeats in one way. -/
theorem Repeats.unique {record : FlowRun} {attempt : ℕ} {records records₁ records₂ : Records}
    {w w₁ w₂ : World} {retries₁ retries₂ : List FlowRun} {inputs₁ inputs₂ : Object}
    (h₁ : Repeats r run flow rep scope record attempt records w retries₁ records₁ w₁ inputs₁)
    (h₂ : Repeats r run flow rep scope record attempt records w retries₂ records₂ w₂ inputs₂) :
    records₁ = records₂ ∧ inputs₁ = inputs₂ ∧
      w₁.boundNext flow records₁ = w₂.boundNext flow records₂ := by
  have same := (h₁.decided []).symm.trans (h₂.decided [])
  injection same with decision state
  injection decision with _ inputs
  injection state with records world
  exact ⟨records, inputs, world⟩

/-- The attempt of a round runs in one way. -/
theorem RoundRan.unique {round : Round} {record₁ record₂ : FlowRun}
    {issues₁ issues₂ : List DecisionIssue} {w₁ w₂ : World}
    (h₁ : RoundRan run scope call opened round record₁ issues₁ w₁)
    (h₂ : RoundRan run scope call opened round record₂ issues₂ w₂) :
    record₁ = record₂ ∧ issues₁ = issues₂ ∧ w₁ = w₂ := by
  obtain ⟨envelope, received, ran⟩ := h₁
  obtain ⟨envelope', received', ran'⟩ := h₂
  obtain rfl := Except.ok.inj (received.symm.trans received')
  have same := ran.symm.trans ran'
  injection same with result world
  injection result with record issues
  exact ⟨record, issues, world⟩

/-- The input of an attempt that ran does not nest too deeply. -/
theorem RoundRan.input {round : Round} {record : FlowRun} {issues : List DecisionIssue} {w : World}
    (h : RoundRan run scope call opened round record issues w) :
    depth (.obj round.inputs) ≤ MAX_EXECUTION_JSON_DEPTH := by
  obtain ⟨envelope, received, -⟩ := h
  exact depth_of_withPayload received

/-- Rounds that fit run up to the rule that stops the repeat. -/
theorem RepeatFits.trace {round : Round} {remaining : ℕ}
    (known : ∀ name, rep.retryFlow = some name → r.plan.flow? name ≠ none)
    (fits : RepeatFits r run flow rep scope call opened round)
    (room : round.attempts.length < rep.maxAttempts)
    (all : round.attempts.length + remaining = rep.maxAttempts) :
    ∃ ended, RepeatTrace r run flow rep scope call opened round ended := by
  induction remaining generalizing round with
  | zero => omega
  | succ remaining ih =>
    have first := fits round .refl
    obtain ⟨envelope, received⟩ := withPayload_of_depth scope.envelope first.input
    obtain ⟨⟨record, issues⟩, w, ran⟩ : ∃ result w,
        run (call envelope (round.attempts.length + 1)) (opened round.world) = (result, w) :=
      ⟨_, _, rfl⟩
    have attempted : RoundRan run scope call opened round record issues w := ⟨envelope, received, ran⟩
    obtain ⟨ended, stops⟩ | ⟨retries, records, w', inputs, repeats⟩ :=
      (first.decision record issues w attempted).rule issues known
    · exact ⟨_, .stopped attempted stops⟩
    · have more := repeats.unmet.more
      have next := NextRound.again attempted repeats
      obtain ⟨ended, rest⟩ := ih (fun later steps => fits later (.head next steps))
        (by rwa [Round.next_attempts_length]) (by rw [Round.next_attempts_length]; omega)
      exact ⟨_, .again attempted repeats rest⟩

/-- Rounds that ran up to a rule fit. -/
theorem RepeatTrace.fits {round : Round} {ended : RepeatEnd}
    (h : RepeatTrace r run flow rep scope call opened round ended) :
    RepeatFits r run flow rep scope call opened round := by
  induction h with
  | @stopped round record issues w ended ran stops =>
    intro later steps
    obtain rfl | ⟨next, step, -⟩ := steps.cases_head
    · refine ⟨ran.input, fun record' issues' w' ran' => ?_⟩
      obtain ⟨rfl, rfl, rfl⟩ := ran.unique ran'
      exact stops.fits
    · cases step with
      | again ran' repeats =>
        obtain ⟨rfl, rfl, rfl⟩ := ran.unique ran'
        exact absurd repeats stops.not_repeats
  | @again round record issues retries records inputs w w' ended ran repeats rest ih =>
    intro later steps
    obtain rfl | ⟨next, step, steps⟩ := steps.cases_head
    · refine ⟨ran.input, fun record' issues' w' ran' => ?_⟩
      obtain ⟨rfl, rfl, rfl⟩ := ran.unique ran'
      exact repeats.fits
    · refine ih later ?_
      cases step with
      | again ran' repeats' =>
        obtain ⟨rfl, rfl, rfl⟩ := ran.unique ran'
        obtain ⟨rfl, rfl, world⟩ := repeats.unique repeats'
        rwa [Round.next, world]

end Repeat

/-! ## The loops -/

section Item

variable {r : WorkflowRunner} {run : FlowCall → World → (FlowRun × List DecisionIssue) × World}
  {rep : RepeatPlan} {item : Item} {scope : RepeatScope}

/-- An attempt of an item begins. -/
def World.startItem (flow : FlowPlan) (w : World) : World :=
  w.append [.flowStarted flow.name .callable]

/-- The loop of an item returns what the trace says. -/
theorem RepeatTrace.itemAttempts {round : Round} {ended : RepeatEnd} {remaining : ℕ}
    (h : RepeatTrace r run item.flow rep scope (itemCall item scope.collectionDepth)
      (World.startItem item.flow) round ended)
    (room : round.attempts.length < rep.maxAttempts)
    (all : round.attempts.length + remaining = rep.maxAttempts) :
    runItemAttempts r run rep item scope remaining round.attempts round.records round.inputs
        ((), round.world) =
      .ok { record := ended.record
            retry := rep.retryFlow.bind fun name =>
              (Dict.set item.flow.name ended.record ended.records).lookup name
            failure := ended.failure }
        ((), ended.world.append [.repeatStopped ended.cause.stop]) := by
  induction h generalizing remaining with
  | stopped attempted stops =>
    obtain _ | remaining := remaining
    · omega
    obtain ⟨envelope, received, ran⟩ := attempted
    have decision := stops.decided
    unfold Round.recorded at decision
    unfold World.startItem at ran
    rw [runItemAttempts, emit_bind, bind_ok (lift_ok _ received), total_bind]
    simp only [ran]
    rw [bind_ok (within_ok decision)]
    rfl
  | @again round record issues _ _ _ _ _ _ attempted repeats rest ih =>
    obtain _ | remaining := remaining
    · omega
    obtain ⟨envelope, received, ran⟩ := attempted
    have decision := repeats.decided issues
    unfold Round.recorded at decision
    unfold World.startItem at ran
    rw [runItemAttempts, emit_bind, bind_ok (lift_ok _ received), total_bind]
    simp only [ran]
    rw [bind_ok (within_ok decision)]
    have more := repeats.unmet.more
    exact ih (by rwa [Round.next_attempts_length]) (by rw [Round.next_attempts_length]; omega)

end Item

section Routed

variable {r : WorkflowRunner} {envelope : AcceptedEnvelope} {flow : FlowPlan} {rep : RepeatPlan}

/-- The records of a run after the loop of a routed flow; an exception is recorded as the failure of the
active flow. -/
def reported (r : WorkflowRunner) :
    EStateM.Result Exn (RunLocals × World) Routed → Records
  | .ok _ (l, _) => l.records
  | .error error (l, w) => (interrupted r (recordFailure r error w).1 l).records

/-- Selecting the target of a flow leaves the records once no flow is active. -/
theorem TargetRan.reported {record : FlowRecord} {issues : List DecisionIssue} {l : RunLocals}
    {w : World} {result : EStateM.Result Exn (RunLocals × World) Routed}
    (h : TargetRan envelope flow record issues l w result) (idle : l.active = none) :
    reported r result = l.records := by
  have hkept : ∀ failure, (interrupted r failure l).records = l.records := by
    intro failure
    rw [interrupted, idle]
  cases h with
  | boundary => rfl
  | failed => exact hkept _
  | misrouted => exact hkept _

/-- The loop of a routed flow records what the trace says. -/
theorem RepeatTrace.routedAttempts {round : Round} {l : RunLocals} {ended : RepeatEnd} {remaining : ℕ}
    (h : RepeatTrace r (executeFlow r) flow rep { envelope := envelope } (routedCall flow)
      (World.startRouted flow) round ended)
    (starts : round.records = l.records) (room : round.attempts.length < rep.maxAttempts)
    (all : round.attempts.length + remaining = rep.maxAttempts) :
    reported r (runRoutedAttempts r envelope flow rep remaining round.attempts round.inputs
        (l, round.world)) =
      Dict.set flow.name ended.record ended.records := by
  -- on the rounds: each one is a turn of the loop, with one remaining attempt less
  induction h generalizing remaining l with
  | stopped attempted stops =>
    obtain _ | remaining := remaining
    · omega
    obtain ⟨received, receives, ran⟩ := attempted
    have decision := stops.decided
    rw [Round.recorded, starts] at decision
    rw [runRoutedAttempts, update_bind, bind_ok (lift_ok _ receives), startRouted_bind, total_bind]
    simp only [ran]
    rw [update_bind, bind_ok (onRecords_ok decision)]
    simp only
    rw [emit_bind, update_bind]
    split
    · rfl
    · exact (selectTarget_ran ..).reported rfl
  | @again round record issues _ _ _ _ _ _ attempted repeats rest ih =>
    obtain _ | remaining := remaining
    · omega
    obtain ⟨received, receives, ran⟩ := attempted
    have decision := repeats.decided issues
    rw [Round.recorded, starts] at decision
    rw [runRoutedAttempts, update_bind, bind_ok (lift_ok _ receives), startRouted_bind, total_bind]
    simp only [ran]
    rw [update_bind, bind_ok (onRecords_ok decision)]
    simp only
    rw [update_bind]
    have more := repeats.unmet.more
    exact ih rfl (by rwa [Round.next_attempts_length]) (by rw [Round.next_attempts_length]; omega)

end Routed

/-! ## The protocol -/

/-- What a repeat promises about its record and the recorded runs of its retry flow, against the rounds
that were executed. -/
structure RepeatProtocol (rep : RepeatPlan) (ended : RepeatEnd) (record : FlowRecord)
    (before after : List FlowRun) : Prop where
  attempted : 1 ≤ record.attempts.length
  bounded : record.attempts.length ≤ rep.maxAttempts
  attempts : record.attempts = ended.attempts
  retries : after = before ++ ended.retries
  retryCount : rep.retryFlow ≠ none → ended.retries.length =
    if ended.cause.byAttempt then record.attempts.length - 1 else record.attempts.length
  stoppedBy : record.stoppedBy = some ended.cause.stop
  /-- The record is the last attempt; only a review of the retry flow changes its status. -/
  kept : ∃ last, record.attempts.getLast? = some last ∧
    record.status = ended.cause.status.getD last.status ∧ record.steps = last.steps ∧
    record.result = last.result

/-- Before the first round of a repeat. -/
def firstRound (records : Records) (inputs : Object) (w : World) : Round := ⟨[], records, inputs, w⟩

/-- A repeat has room for an attempt. -/
theorem repeat_room (rep : RepeatPlan) : ([] : List FlowRun).length < rep.maxAttempts :=
  Nat.lt_of_lt_of_le Nat.two_pos rep.two_le

/-- The first round has room. -/
theorem firstRound_room (rep : RepeatPlan) (records : Records) (inputs : Object) (w : World) :
    (firstRound records inputs w).attempts.length < rep.maxAttempts :=
  repeat_room rep

/-- What the rounds of a repeat record keeps the protocol. -/
theorem RepeatTrace.protocol {r : WorkflowRunner}
    {run : FlowCall → World → (FlowRun × List DecisionIssue) × World} {flow : FlowPlan}
    {rep : RepeatPlan} {scope : RepeatScope} {call : AcceptedEnvelope → ℕ → FlowCall}
    {opened : World → World} {records : Records} {inputs : Object} {w : World} {ended : RepeatEnd}
    (h : RepeatTrace r run flow rep scope call opened (firstRound records inputs w) ended)
    {before after : List FlowRun} (retries : after = before ++ ended.retries) :
    RepeatProtocol rep ended ended.record before after := by
  obtain ⟨bounded, attempted, last⟩ := h.attempts_spec (firstRound_room ..)
  refine ⟨attempted, bounded, rfl, retries, fun retry => ?_, rfl, ended.last, last, rfl, rfl, rfl⟩
  have count := h.retries_length retry
  show ended.retries.length =
    if ended.cause.byAttempt then ended.attempts.length - 1 else ended.attempts.length
  have hfirst : (firstRound records inputs w).attempts.length = 0 := rfl
  rw [hfirst] at count
  split at count <;> rename_i own
  · rw [if_pos own]
    omega
  · rw [if_neg own]
    omega

/-- The recorded runs of the retry flow of a repeat. -/
def repeatRetries (rep : RepeatPlan) (records : Records) : List FlowRun :=
  (rep.retryFlow.map fun name => retryRuns name records).getD []

section Protocol

variable (r : WorkflowRunner)

/-- The repeat of a routed flow keeps the protocol: some executed rounds are what the run reports. -/
def RoutedProtocol (envelope : AcceptedEnvelope) (flow : FlowPlan) (rep : RepeatPlan)
    (inputs : Object) (l : RunLocals) (w : World) : Prop :=
  ∃ ended record,
    RepeatTrace r (executeFlow r) flow rep { envelope := envelope } (routedCall flow)
      (World.startRouted flow) (firstRound l.records inputs w) ended ∧
    (reported r (runRoutedAttempts r envelope flow rep rep.maxAttempts [] inputs (l, w))).lookup
      flow.name = some record ∧
    RepeatProtocol rep ended record (repeatRetries rep l.records)
      (repeatRetries rep
        (reported r (runRoutedAttempts r envelope flow rep rep.maxAttempts [] inputs (l, w))))

/-- No round of a routed repeat raises. -/
def RoutedFits (envelope : AcceptedEnvelope) (flow : FlowPlan) (rep : RepeatPlan) (inputs : Object)
    (l : RunLocals) (w : World) : Prop :=
  RepeatFits r (executeFlow r) flow rep { envelope := envelope } (routedCall flow)
    (World.startRouted flow) (firstRound l.records inputs w)

variable (run : FlowCall → World → (FlowRun × List DecisionIssue) × World)

/-- The repeat of a collection item keeps the protocol: some executed rounds are what the item
returns. -/
def ItemProtocol (call : CollectionCall) (item : Item) (rep : RepeatPlan) (w : World) : Prop :=
  ∃ envelope ended ran s, call.envelope.withPayload (.obj item.payload) = .ok envelope ∧
    RepeatTrace r run item.flow rep (itemScope call item envelope)
      (itemCall item (call.collectionDepth + 1)) (World.startItem item.flow)
      (firstRound [] item.payload w) ended ∧
    runItem r run call item ((), w) = .ok ran s ∧
    RepeatProtocol rep ended ran.record [] ((ran.retry.map FlowRecord.attempts).getD [])

/-- The input of a repeated item does not nest too deeply, and no round of its repeat raises. -/
structure ItemFits (call : CollectionCall) (item : Item) (rep : RepeatPlan) (w : World) : Prop where
  input : depth (.obj item.payload) ≤ MAX_EXECUTION_JSON_DEPTH
  rounds : ∀ envelope, call.envelope.withPayload (.obj item.payload) = .ok envelope →
    RepeatFits r run item.flow rep (itemScope call item envelope)
      (itemCall item (call.collectionDepth + 1)) (World.startItem item.flow)
      (firstRound [] item.payload w)

variable {r run}

/-- A routed repeat whose rounds fit keeps the protocol. -/
theorem routed_keeps {envelope : AcceptedEnvelope} {flow : FlowPlan} {rep : RepeatPlan}
    {inputs : Object} {l : RunLocals} {w : World}
    (known : ∀ name, rep.retryFlow = some name → r.plan.flow? name ≠ none ∧ name ≠ flow.name)
    (fits : RoutedFits r envelope flow rep inputs l w) :
    RoutedProtocol r envelope flow rep inputs l w := by
  obtain ⟨ended, trace⟩ := RepeatFits.trace (fun name retry => (known name retry).1) fits
    (firstRound_room ..) (Nat.zero_add _)
  have recorded : reported r
      (runRoutedAttempts r envelope flow rep rep.maxAttempts [] inputs (l, w)) =
        Dict.set flow.name ended.record ended.records :=
    trace.routedAttempts rfl (firstRound_room ..) (Nat.zero_add _)
  refine ⟨ended, ended.record, trace, ?_, trace.protocol ?_⟩
  · rw [recorded, Dict.lookup_set_self]
  · rw [recorded]
    unfold repeatRetries
    cases retry : rep.retryFlow with
    | none =>
      rw [trace.none retry]
      rfl
    | some name =>
      have ne := (known name retry).2
      show retryRuns name _ = retryRuns name _ ++ _
      rw [retryRuns_set_ne _ _ ne, trace.retryRuns retry ne]
      rfl

/-- The rounds of a routed repeat that keeps the protocol fit. -/
theorem routed_fits {envelope : AcceptedEnvelope} {flow : FlowPlan} {rep : RepeatPlan}
    {inputs : Object} {l : RunLocals} {w : World}
    (keeps : RoutedProtocol r envelope flow rep inputs l w) :
    RoutedFits r envelope flow rep inputs l w := by
  obtain ⟨ended, record, trace, -⟩ := keeps
  exact trace.fits

/-- A repeated item whose rounds fit keeps the protocol. -/
theorem item_keeps {call : CollectionCall} {item : Item} {rep : RepeatPlan} {w : World}
    (repeats : item.flow.repeatPlan = some rep)
    (known : ∀ name, rep.retryFlow = some name → r.plan.flow? name ≠ none ∧ name ≠ item.flow.name)
    (fits : ItemFits r run call item rep w) : ItemProtocol r run call item rep w := by
  obtain ⟨envelope, received⟩ := withPayload_of_depth call.envelope fits.input
  obtain ⟨ended, trace⟩ := RepeatFits.trace (fun name retry => (known name retry).1)
    (fits.rounds envelope received) (firstRound_room ..) (Nat.zero_add _)
  have returned := @RepeatTrace.itemAttempts _ _ _ _ (itemScope call item envelope) _ _ _ trace
    (firstRound_room ..) (Nat.zero_add _)
  have ran : runItem r run call item ((), w) = runItemAttempts r run rep item
      (itemScope call item envelope) rep.maxAttempts [] [] item.payload ((), w) := by
    rw [runItem, bind_ok (lift_ok _ received), repeats]
  refine ⟨envelope, ended, _, _, received, trace, ran.trans returned, trace.protocol ?_⟩
  cases retry : rep.retryFlow with
  | none =>
    rw [trace.none retry]
    rfl
  | some name =>
    have ne := (known name retry).2
    have recorded := trace.retryRuns retry ne
    show (((Dict.set item.flow.name ended.record ended.records).lookup name).map
      FlowRecord.attempts).getD [] = _
    rw [Dict.lookup_set_of_ne ne]
    exact recorded

/-- The rounds of a repeated item that keeps the protocol fit. -/
theorem item_fits {call : CollectionCall} {item : Item} {rep : RepeatPlan} {w : World}
    (keeps : ItemProtocol r run call item rep w) : ItemFits r run call item rep w := by
  obtain ⟨envelope, ended, ran, s, received, trace, -⟩ := keeps
  refine ⟨depth_of_withPayload received, fun envelope' received' => ?_⟩
  obtain rfl := Except.ok.inj (received.symm.trans received')
  exact trace.fits

end Protocol

/-! ## An input that nests too deeply -/

/-- Objects around a null. -/
def wrapped : ℕ → Json
  | 0 => .null
  | n + 1 => .obj [("doc", wrapped n)]

/-- Each object around the null is a level. -/
theorem depth_wrapped (n : ℕ) : depth (wrapped n) = n := by
  induction n with
  | zero => rfl
  | succ n ih => rw [wrapped, depth, membersDepth, membersDepth, ih, Nat.max_zero]

/-- Refine until the payload says so, with the result of another flow as the next document. -/
def refineRepeat : RepeatPlan where
  maxAttempts := 2
  two_le := le_rfl
  untilCondition := .leaf
    { source := .pointer "/payload/done" none, operator := .present, operand := .bool true }
  retryInput := [("doc", .pointer "/flows/deep/result" none)]

/-- A flow with a repeat. -/
def refineFlow : FlowPlan where
  name := "refine"
  input := [("doc", .literal .null)]
  steps := [exampleStep]
  transition := some (.direct { outcome := some .completed })
  repeatPlan := some refineRepeat
  nodup := exampleFlow.nodup

/-- The flow whose result is the next document. -/
def deepFlow : FlowPlan where
  name := "deep"
  steps := [exampleStep]
  transition := some (.direct { flow := some "refine" })
  nodup := exampleFlow.nodup

/-- A run of both flows with a second left. -/
def refineRunner : WorkflowRunner where
  plan := { name := "example", revision := "1", start := .flow "deep",
            flows := [deepFlow, refineFlow], nodup := by simp [deepFlow, refineFlow] }
  limits := {}
  services := exampleServices
  deadline := 1

/-- The records of a run after the first flow, whose result nests as deeply as a payload may. -/
def deepRecords : Records :=
  [("deep", { status := .completed, steps := [], result := some (wrapped 192) })]

/-- The state of the run before the repeat. -/
def deepLocals : RunLocals := { records := deepRecords }

/-- The input of the first attempt. -/
def refineInputs : Object := [("doc", .null)]

/-- The first attempt. -/
def refineFirst : (FlowRun × List DecisionIssue) × World :=
  executeFlow refineRunner
    (routedCall refineFlow ⟨.obj refineInputs, [], by decide, by decide⟩ 1)
    (World.startRouted refineFlow {})

/-- The records after the first attempt. -/
def refineRecords : Records := setAttempt refineFlow.name refineFirst.1.1 [] deepRecords

/-- The next input is bound, and no attempt accepts it. -/
def BindsTooDeep : Except Exn Object → Bool
  | .ok inputs => decide (MAX_EXECUTION_JSON_DEPTH < depth (.obj inputs))
  | .error _ => false

/-- A condition that can be evaluated does not hold. -/
def HoldsNot : Except Exn Bool → Bool
  | .ok met => !met
  | .error _ => false

/-- `HoldsNot` means what it says. -/
theorem eq_false_of_holdsNot {result : Except Exn Bool} (h : HoldsNot result = true) :
    result = .ok false := by
  cases result with
  | error error => cases h
  | ok met =>
    cases met with
    | true => cases h
    | false => rfl

/-- The first attempt completes without the payload being done. -/
theorem refine_unmet : Unmet refineRunner refineRepeat { envelope := exampleEnvelope }
    refineFirst.1.1 1 refineRecords where
  failed := by decide +kernel
  review := by decide +kernel
  holds := eq_false_of_holdsNot (by decide +kernel)
  more := Nat.one_lt_two

/-- The first attempt is followed by a round whose input nests too deeply. -/
theorem refine_unfit :
    ¬ RoutedFits refineRunner exampleEnvelope refineFlow refineRepeat refineInputs deepLocals {} := by
  intro fits
  have deep : BindsTooDeep (nextValue refineRunner refineFlow refineRepeat
      { envelope := exampleEnvelope } refineRecords) = true := by
    decide +kernel
  cases bound : nextValue refineRunner refineFlow refineRepeat { envelope := exampleEnvelope }
      refineRecords with
  | error error =>
    rw [bound] at deep
    cases deep
  | ok inputs =>
    rw [bound] at deep
    have attempted : RoundRan (executeFlow refineRunner) { envelope := exampleEnvelope }
        (routedCall refineFlow) (World.startRouted refineFlow)
          (firstRound deepRecords refineInputs {})
        refineFirst.1.1 refineFirst.1.2 refineFirst.2 := ⟨_, rfl, rfl⟩
    have repeats : Repeats refineRunner (executeFlow refineRunner) refineFlow refineRepeat
        { envelope := exampleEnvelope } refineFirst.1.1 1 refineRecords refineFirst.2 [] refineRecords
        refineFirst.2.unmet inputs := ⟨refine_unmet, .absent rfl, by decide +kernel, bound⟩
    have second := fits _ (.single (.again attempted repeats))
    exact absurd second.input (Nat.not_le_of_lt (of_decide_eq_true deep))

/-- After an attempt that completed the next input nests too deeply: the repeat is recorded as failed
with skipped steps instead of as its last attempt. -/
theorem deep_input_loses_attempt :
    ¬ RoutedProtocol refineRunner exampleEnvelope refineFlow refineRepeat refineInputs deepLocals {} ∧
    ((reported refineRunner (runRoutedAttempts refineRunner exampleEnvelope refineFlow refineRepeat 2
      [] refineInputs (deepLocals, {}))).lookup "refine").map (fun record =>
        (record.status, record.steps.map fun step => step.2.status,
          record.attempts.map fun attempt =>
            (attempt.status, attempt.steps.map fun step => step.2.status))) =
      some (.failed, [.skipped], [(.completed, [.completed])]) :=
  ⟨fun keeps => refine_unfit (routed_fits keeps), by decide +kernel⟩

open Compiler in
/-- An accepted repeat keeps its protocol exactly when no round raises. -/
theorem repeat_protocol_iff_fits {r : WorkflowRunner} {declared : FlowPlan → Option (List String)}
    {retryOf : List (String × String)} (accepted : validateRepeats r.plan declared = .ok retryOf)
    {flow : FlowPlan} (mem : flow ∈ r.plan.flows) {rep : RepeatPlan}
    (repeats : flow.repeatPlan = some rep) :
    (∀ envelope inputs l w, RoutedProtocol r envelope flow rep inputs l w ↔
      RoutedFits r envelope flow rep inputs l w) ∧
    ∀ run call id payload w, ItemProtocol r run call ⟨id, flow, payload⟩ rep w ↔
      ItemFits r run call ⟨id, flow, payload⟩ rep w := by
  have owners := validateRepeats_spec accepted
  have known : ∀ name, rep.retryFlow = some name → r.plan.flow? name ≠ none ∧ name ≠ flow.name := by
    intro name retry
    obtain ⟨ne, target, found, -⟩ := owners.accepted _ (owners.owns flow mem rep name repeats retry)
    exact ⟨by rw [found]; exact Option.some_ne_none _, ne⟩
  exact ⟨fun envelope inputs l w => ⟨routed_fits, routed_keeps known⟩,
    fun run call id payload w => ⟨item_fits, item_keeps repeats known⟩⟩

/-- The compiler accepts the repeat. -/
theorem refine_accepted : Compiler.validateRepeats refineRunner.plan (fun _ => none) = .ok [] := by
  have hread : Compiler.readsCallable refineRunner.plan "refine" "/flows/deep/result" = false := by
    decide +kernel
  have hflows : refineRunner.plan.flows = [deepFlow, refineFlow] := rfl
  have hdeep : Compiler.validateRepeat refineRunner.plan (fun _ => none) [] deepFlow = .ok [] := rfl
  have hrefine : Compiler.validateRepeat refineRunner.plan (fun _ => none) [] refineFlow =
      .ok [] := by
    simp [Compiler.validateRepeat, refineFlow, refineRepeat, Compiler.repeatInputKeys, Dict.keys,
      Compiler.pointers, hread, Compiler.require]
    rfl
  rw [Compiler.validateRepeats, hflows, List.foldlM_cons, hdeep]
  show (do let retryOf ← Compiler.validateRepeat _ _ [] refineFlow; _) = _
  rw [hrefine]
  rfl

/-- The equivalence at the repeat of the example. -/
theorem refine_protocol_iff_fits :
    RoutedProtocol refineRunner exampleEnvelope refineFlow refineRepeat refineInputs deepLocals {} ↔
      RoutedFits refineRunner exampleEnvelope refineFlow refineRepeat refineInputs deepLocals {} :=
  (repeat_protocol_iff_fits refine_accepted (List.mem_cons_of_mem _ List.mem_cons_self) rfl).1 _ _ _ _

end Foliqant.Core
