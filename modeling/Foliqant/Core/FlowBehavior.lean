import Foliqant.Core.Runner

/-!
# What the execution of a flow can do

Inversion of the runner: every round of the loop over the steps, and every execution of a flow, ends
in one of a few ways, with what it did to its data and to the world.
-/

namespace Foliqant.Core

open Exec

variable {σ τ α β : Type}

/-! ## Computations -/

namespace Exec

/-- A computation that succeeds goes on with its value. -/
theorem bind_ok {x : Exec σ α} {f : α → Exec σ β} {s s' : σ × World} {a : α}
    (h : x s = .ok a s') : (x >>= f) s = f a s' := by
  show EStateM.bind x f s = _
  rw [EStateM.bind, h]

/-- A computation that fails ends what follows it. -/
theorem bind_error {x : Exec σ α} {f : α → Exec σ β} {s s' : σ × World} {e : Exn}
    (h : x s = .error e s') : (x >>= f) s = .error e s' := by
  show EStateM.bind x f s = _
  rw [EStateM.bind, h]

variable (r : WorkflowRunner) (s : σ × World)

/-- A value changes nothing. -/
@[simp] theorem pure_apply (a : α) : (pure a : Exec σ α) s = .ok a s := rfl

/-- The locals are read as they are. -/
@[simp] theorem locals_bind (f : σ → Exec σ β) : (locals >>= f) s = f s.1 s := rfl

/-- An update changes the locals only. -/
@[simp] theorem update_bind (g : σ → σ) (f : Unit → Exec σ β) :
    (update g >>= f) s = f () (g s.1, s.2) := rfl

/-- Events are appended to the world. -/
@[simp] theorem emit_bind (events : List Event) (f : Unit → Exec σ β) :
    (emit events >>= f) s = f () (s.1, s.2.append events) := rfl

/-- Reading the clock is a tick. -/
@[simp] theorem now_bind (f : ℚ → Exec σ β) :
    (now r >>= f) s = f (r.services.clock s.2.reads) (s.1, s.2.tick) := rfl

/-- An operation on the world that cannot fail. -/
@[simp] theorem total_bind (x : World → α × World) (f : α → Exec σ β) :
    (total x >>= f) s = f (x s.2).1 (s.1, (x s.2).2) := rfl

/-- A value is handed on. -/
@[simp] theorem pure_bind' (a : α) (f : α → Exec σ β) : (pure a >>= f) s = f a s := rfl

/-- A run that leaves its graph is an invalid configuration, and an event. -/
@[simp] theorem refuse_apply (fault : GraphFault) :
    (refuse fault : Exec σ α) s =
      .error (.service ErrorCode.invalidConfiguration.error) (s.1, s.2.append [.misrouted fault]) :=
  rfl

/-- Raising leaves the state as it is. -/
@[simp] theorem raise_apply (code : ErrorCode) :
    (raise code : Exec σ α) s = .error (.service code.error) s := rfl

/-- A success of a pure computation. -/
theorem lift_ok {x : Except Exn α} {a : α} (h : x = .ok a) : lift x s = .ok a s := by
  rw [h, lift]

/-- A failure of a pure computation. -/
theorem lift_error {x : Except Exn α} {e : Exn} (h : x = .error e) : lift x s = .error e s := by
  rw [h, lift]

/-- A computation on the world keeps the locals. -/
theorem onWorld_ok {x : Exec Unit α} {s : σ × World} {a : α} {s' : Unit × World}
    (h : x ((), s.2) = .ok a s') : onWorld x s = .ok a (s.1, s'.2) := by
  rw [onWorld, h]

/-- A computation on the world keeps the locals when it fails. -/
theorem onWorld_error {x : Exec Unit α} {s : σ × World} {e : Exn} {s' : Unit × World}
    (h : x ((), s.2) = .error e s') : onWorld x s = .error e (s.1, s'.2) := by
  rw [onWorld, h]

variable {s r}

/-- Past the deadline the check fails, after one reading of the clock. -/
theorem checkDeadline_late (h : r.deadline ≤ r.services.clock s.2.reads) :
    checkDeadline r s = .error (.service ErrorCode.runTimeout.error) (s.1, s.2.tick) := by
  unfold checkDeadline
  rw [now_bind, if_pos h]
  rfl

/-- In time the check only reads the clock. -/
theorem checkDeadline_ok (h : ¬ r.deadline ≤ r.services.clock s.2.reads) :
    checkDeadline r s = .ok () (s.1, s.2.tick) := by
  unfold checkDeadline
  rw [now_bind, if_neg h]
  rfl

/-- A check of the deadline that fails; the world is known from the hypothesis. -/
theorem checkDeadline_bind_late {f : Unit → Exec σ α} {l : σ} {w : World}
    (late : r.deadline ≤ r.services.clock w.reads) :
    (checkDeadline r >>= f) (l, w) = .error (.service ErrorCode.runTimeout.error) (l, w.tick) :=
  bind_error (@checkDeadline_late σ r (l, w) late)

/-- In time the check goes on, after one reading of the clock. -/
theorem checkDeadline_bind {f : Unit → Exec σ α} {l : σ} {w : World}
    (late : ¬ r.deadline ≤ r.services.clock w.reads) :
    (checkDeadline r >>= f) (l, w) = f () (l, w.tick) :=
  bind_ok (@checkDeadline_ok σ r (l, w) late)

end Exec

/-! ## The world -/

namespace World

variable (w : World) (events : List Event)

/-- Reading the clock consumes no step. -/
@[simp] theorem tick_consumed : w.tick.consumed = w.consumed := rfl
/-- Reading the clock is no call. -/
@[simp] theorem tick_calls : w.tick.calls = w.calls := rfl
/-- Reading the clock is no event. -/
@[simp] theorem tick_log : w.tick.log = w.log := rfl
/-- An event consumes no step. -/
@[simp] theorem append_consumed : (w.append events).consumed = w.consumed := rfl
/-- An event is no call. -/
@[simp] theorem append_calls : (w.append events).calls = w.calls := rfl
/-- Events come at the end of the log. -/
@[simp] theorem append_log : (w.append events).log = w.log ++ events := rfl

/-- Events appended in two parts. -/
theorem append_append (more : List Event) :
    (w.append events).append more = w.append (events ++ more) := by
  simp [append]

/-- No events change nothing. -/
@[simp] theorem append_nil : w.append [] = w := by
  simp [append]

/-- Only the clock was read. -/
def Idle (w w' : World) : Prop := ∃ reads, w' = { w with reads := reads }

namespace Idle

variable {w} {w' w'' : World}

/-- Nothing happens. -/
theorem refl (w : World) : Idle w w := ⟨w.reads, rfl⟩

/-- A reading of the clock is idle. -/
theorem tick (w : World) : Idle w w.tick := ⟨w.reads + 1, rfl⟩

/-- What is idle and then idle is idle. -/
theorem trans (h : Idle w w') (h' : Idle w' w'') : Idle w w'' := by
  obtain ⟨n, rfl⟩ := h
  obtain ⟨m, rfl⟩ := h'
  exact ⟨m, rfl⟩

/-- Nothing idle consumes a step. -/
theorem consumed (h : Idle w w') : w'.consumed = w.consumed := by
  obtain ⟨n, rfl⟩ := h
  rfl

/-- Nothing idle leaves an event. -/
theorem log (h : Idle w w') : w'.log = w.log := by
  obtain ⟨n, rfl⟩ := h
  rfl

end Idle

end World

/-! ## Operations -/

section Flow

variable (r : WorkflowRunner) (collection : CollectionCall → Exec Unit StepRecord)
  (call : FlowCall) (step : StepPlan)

/-- Why an executed operation fails the step: what the executor raised, a time bound, or an outcome
that is not accepted. -/
def OperationError (executed : Executed) (error : Exn) : Prop :=
  executed = .raised error ∨
    ∃ code ∈ [ErrorCode.requestTimeout, .runTimeout, .invalidOutput], error = .service code.error

/-- The world after an executor call. -/
def World.operated (flow step : String) (usage : Usage) (w : World) : World :=
  { w with calls := w.calls + 1 }.append [.operation flow step usage]

/-- How an operation step ends. -/
inductive OperationRan (inputs : Object) (l : FlowLocals) (w : World) :
    EStateM.Result Exn (FlowLocals × World) Control → Prop
  | failed {executed : Executed × StepBudget} {error : Exn} {w' : World}
      (called : executed = r.services.execute w.calls step inputs (stepContext r call step))
      (cause : OperationError executed.1 error)
      (idle : (w.operated call.flow.name step.name (executed.2.snapshot rounded)).Idle w') :
      OperationRan inputs l w (.error error (l.spend (executed.2.snapshot rounded), w'))
  | ended {executed : Executed × StepBudget} {outcome : StepOutcome} {value : Json} {ended : ℚ}
      {w' : World}
      (called : executed = r.services.execute w.calls step inputs (stepContext r call step))
      (accepted : acceptOutcome executed.1 step.kind = .ok (outcome, value))
      (idle : (w.operated call.flow.name step.name (executed.2.snapshot rounded)).Idle w') :
      OperationRan inputs l w (.ok (if outcome.needsReview then .stop else .next)
        (FlowLocals.complete call.stepId step.name outcome value ended
          (l.spend (executed.2.snapshot rounded)), w'))

/-- A call of the executor counts what it used and leaves its event. -/
theorem callExecutor_bind (inputs : Object) (f : Executed → Exec FlowLocals α) (l : FlowLocals)
    (w : World) :
    (callExecutor r call step inputs >>= f) (l, w) =
      f (r.services.execute w.calls step inputs (stepContext r call step)).1
        (l.spend ((r.services.execute w.calls step inputs (stepContext r call step)).2.snapshot
          rounded),
          w.operated call.flow.name step.name
            ((r.services.execute w.calls step inputs (stepContext r call step)).2.snapshot
              rounded)) := rfl

variable {r call step} in
/-- A call that returned settles at once; another one raises its error. -/
theorem settle_cases (executed : Executed) (l : FlowLocals) (w : World) :
    settle r executed (l, w) = .ok () (l, w) ∨
      ∃ error w', OperationError executed error ∧ w.Idle w' ∧
        settle r executed (l, w) = .error error (l, w') := by
  cases executed with
  | malformed => exact .inl rfl
  | returned outcome => exact .inl rfl
  | raised error =>
    right
    cases error with
    | timeout => exact ⟨_, w, .inr ⟨.runTimeout, by simp, rfl⟩, .refl w, rfl⟩
    | other => exact ⟨_, w, .inl rfl, .refl w, rfl⟩
    | service error =>
      simp only [settle]
      by_cases timeout : error.code ∈ timeoutCodes ∧ !error.retryable
      · refine ⟨_, w.tick, .inr ⟨timeoutCode (r.services.clock w.reads) r.deadline, ?_, rfl⟩,
          .tick w, ?_⟩
        · unfold timeoutCode
          split <;> simp
        · rw [if_pos timeout]
          rfl
      · exact ⟨_, w, .inl rfl, .refl w, by rw [if_neg timeout]; rfl⟩

variable {r call step} in
/-- A refused outcome is an error of the operation. -/
theorem acceptOutcome_error {executed : Executed} {kind : StepKind} {error : Exn}
    (h : acceptOutcome executed kind = .error error) : OperationError executed error := by
  cases executed with
  | raised raised =>
    cases h
    exact .inl rfl
  | malformed =>
    cases h
    exact .inr ⟨.invalidOutput, by simp, rfl⟩
  | returned outcome =>
    refine .inr ⟨.invalidOutput, by simp, ?_⟩
    simp only [acceptOutcome, fail] at h
    split_ifs at h
    · exact (Except.error.inj h).symm
    · cases value : outcome.result with
      | none =>
        rw [value] at h
        exact (Except.error.inj h).symm
      | some value =>
        simp only [value] at h
        split_ifs at h
        exact (Except.error.inj h).symm

/-- A step that calls the executor. -/
theorem executeOperation_ran (inputs : Object) (l : FlowLocals) (w : World) :
    OperationRan r call step inputs l w (executeOperation r call step inputs (l, w)) := by
  unfold executeOperation
  rw [callExecutor_bind]
  generalize hexec : r.services.execute w.calls step inputs (stepContext r call step) = executed
  generalize hw : w.operated call.flow.name step.name (executed.2.snapshot rounded) = w₁
  rcases settle_cases (r := r) executed.1 (l.spend (executed.2.snapshot rounded)) w₁ with
    settled | ⟨error, w', cause, idle, settled⟩
  · rw [bind_ok settled]
    by_cases late : r.deadline ≤ r.services.clock w₁.reads
    · rw [checkDeadline_bind_late late]
      exact .failed hexec.symm (.inr ⟨.runTimeout, by simp, rfl⟩) (hw ▸ .tick w₁)
    · rw [checkDeadline_bind late]
      cases accepted : acceptOutcome executed.1 step.kind with
      | error error =>
        rw [bind_error (lift_error _ rfl)]
        exact .failed hexec.symm (acceptOutcome_error accepted) (hw ▸ .tick w₁)
      | ok result =>
        rw [bind_ok (lift_ok _ rfl)]
        exact .ended hexec.symm accepted (hw ▸ (World.Idle.tick w₁).trans (.tick _))
  · rw [bind_error settled]
    exact .failed hexec.symm cause (hw ▸ idle)

/-! ## Rounds -/

/-- The world after a step was skipped. -/
def World.skipStep (flow step : String) (w : World) : World :=
  w.tick.append [.conditionEvaluated ("steps." ++ step ++ ".when") false, .stepSkipped flow step]

/-- The world after a step was started. -/
def World.startStep (flow step : String) (guarded : Option Bool) (w : World) : World :=
  { w with consumed := w.consumed + 1, reads := w.reads + 2 }.append
    (.stepStarted flow step ::
      if guarded = some true then [.conditionEvaluated ("steps." ++ step ++ ".when") true] else [])

/-- How one round of the loop over the steps ends. -/
inductive StepRan (l : FlowLocals) (w : World) :
    EStateM.Result Exn (FlowLocals × World) Control → Prop
  | late (late : r.deadline ≤ r.services.clock w.reads) :
      StepRan l w (.error (.service ErrorCode.runTimeout.error) (l, w.tick))
  | guardFailed {error : Exn} (guard : evaluateGuard r call step l = .error error) :
      StepRan l w (.error error (l, w.tick))
  | skipped (guard : evaluateGuard r call step l = .ok (some false)) :
      StepRan l w (.ok .next (l, w.skipStep call.flow.name step.name))
  | limit (reached : r.limits.maxSteps ≤ w.consumed) :
      StepRan l w (.error (.service ErrorCode.stepLimitReached.error)
        (l, w.tick.append [.limitReached]))
  | inputsFailed {guarded : Option Bool} {started : ℚ} {error : Exn}
      (guard : evaluateGuard r call step l = .ok guarded) (open_ : guarded ≠ some false)
      (within : w.consumed < r.limits.maxSteps)
      (bound : stepInputs call step l = .error error) :
      StepRan l w (.error error (l.start step.name started,
        w.startStep call.flow.name step.name guarded))
  | operation {guarded : Option Bool} {started : ℚ} {inputs : Object}
      {result : EStateM.Result Exn (FlowLocals × World) Control}
      (guard : evaluateGuard r call step l = .ok guarded) (open_ : guarded ≠ some false)
      (within : w.consumed < r.limits.maxSteps)
      (bound : stepInputs call step l = .ok inputs) (kind : step.kind.isCollection = false)
      (ran : OperationRan r call step inputs (l.start step.name started)
        (w.startStep call.flow.name step.name guarded) result) :
      StepRan l w result
  | collectionRaised {guarded : Option Bool} {started : ℚ} {inputs : Object} {items : BindingPlan}
      {flows : List String} {maxItems : ℕ} {error : Exn} {w' : World}
      (guard : evaluateGuard r call step l = .ok guarded) (open_ : guarded ≠ some false)
      (within : w.consumed < r.limits.maxSteps)
      (bound : stepInputs call step l = .ok inputs)
      (kind : step.kind = .flowCollection items flows maxItems)
      (ran : collection ⟨flows, maxItems, inputs, call.envelope, call.collectionDepth⟩
        ((), w.startStep call.flow.name step.name guarded) = .error error ((), w')) :
      StepRan l w (.error error (l.start step.name started, w'))
  | collectionEnded {guarded : Option Bool} {started : ℚ} {inputs : Object} {items : BindingPlan}
      {flows : List String} {maxItems : ℕ} {record : StepRecord} {w' : World}
      (guard : evaluateGuard r call step l = .ok guarded) (open_ : guarded ≠ some false)
      (within : w.consumed < r.limits.maxSteps)
      (bound : stepInputs call step l = .ok inputs)
      (kind : step.kind = .flowCollection items flows maxItems)
      (ran : collection ⟨flows, maxItems, inputs, call.envelope, call.collectionDepth⟩
        ((), w.startStep call.flow.name step.name guarded) = .ok record ((), w')) :
      StepRan l w (.ok (if record.status = .failed ∨
        record.status = .needsReview then .stop else .next)
        (FlowLocals.collect call.stepId step.name record (l.start step.name started), w'))

/-- At the limit no step is reserved, and the limit is an event. -/
theorem reserveStep_limit {s : FlowLocals × World} (h : r.limits.maxSteps ≤ s.2.consumed) :
    reserveStep r s =
      .error (.service ErrorCode.stepLimitReached.error) (s.1, s.2.append [.limitReached]) :=
  if_pos h

/-- Under the limit one step is consumed. -/
theorem reserveStep_ok {s : FlowLocals × World} (h : ¬ r.limits.maxSteps ≤ s.2.consumed) :
    reserveStep r s = .ok () (s.1, { s.2 with consumed := s.2.consumed + 1 }) :=
  if_neg h

/-- A step starts at a reading of the clock. -/
theorem startStep_bind (f : Unit → Exec FlowLocals α) (s : FlowLocals × World) :
    (startStep r step >>= f) s =
      f () (s.1.start step.name (r.services.clock s.2.reads), s.2.tick) := rfl

/-- A collection step runs its collection. -/
theorem executeKind_collection {items : BindingPlan} {flows : List String} {maxItems : ℕ}
    {inputs : Object} (kind : step.kind = .flowCollection items flows maxItems) :
    executeKind r collection call step inputs =
      executeCollectionStep collection call step flows maxItems inputs := by
  unfold executeKind
  rw [kind]

/-- Every other step calls the executor. -/
theorem executeKind_operation {inputs : Object} (kind : step.kind.isCollection = false) :
    executeKind r collection call step inputs = executeOperation r call step inputs := by
  unfold executeKind
  cases shape : step.kind with
  | flowCollection items flows maxItems =>
    rw [shape] at kind
    cases kind
  | _ => rfl

/-- One step: skipped, refused, failed or completed. -/
theorem executeStep_ran (l : FlowLocals) (w : World) :
    StepRan r collection call step l w (executeStep r collection call step (l, w)) := by
  unfold executeStep
  by_cases late : r.deadline ≤ r.services.clock w.reads
  · rw [checkDeadline_bind_late late]
    exact .late late
  rw [checkDeadline_bind late, locals_bind]
  cases guard : evaluateGuard r call step l with
  | error error =>
    rw [bind_error (lift_error _ rfl)]
    exact .guardFailed guard
  | ok guarded =>
    rw [bind_ok (lift_ok _ rfl)]
    by_cases closed : guarded = some false
    · subst closed
      rw [if_pos rfl, emit_bind]
      exact .skipped guard
    rw [if_neg closed]
    by_cases limit : r.limits.maxSteps ≤ w.consumed
    · rw [bind_error (reserveStep_limit r limit)]
      exact .limit limit
    have within := Nat.lt_of_not_le limit
    rw [bind_ok (reserveStep_ok r limit), startStep_bind, emit_bind, locals_bind]
    show StepRan r collection call step l w
      ((lift (stepInputs call step l) >>= executeKind r collection call step)
        (l.start step.name (r.services.clock w.tick.reads),
          w.startStep call.flow.name step.name guarded))
    cases bound : stepInputs call step l with
    | error error =>
      rw [bind_error (lift_error _ rfl)]
      exact .inputsFailed guard closed within bound
    | ok inputs =>
      rw [bind_ok (lift_ok _ rfl)]
      cases kind : step.kind with
      | flowCollection items flows maxItems =>
        rw [executeKind_collection r collection call step kind]
        -- a collection runs other flows, which may change the world at will
        generalize hw : w.startStep call.flow.name step.name guarded = started
        unfold executeCollectionStep
        cases ran : collection ⟨flows, maxItems, inputs, call.envelope, call.collectionDepth⟩
            ((), started) with
        | error error s' =>
          rw [bind_error (onWorld_error ran)]
          subst hw
          exact .collectionRaised guard closed within bound kind ran
        | ok record s' =>
          rw [bind_ok (onWorld_ok ran), update_bind]
          subst hw
          exact .collectionEnded guard closed within bound kind ran
      | _ =>
        have single : step.kind.isCollection = false := by
          rw [kind]
          rfl
        rw [executeKind_operation r collection call step single]
        exact .operation guard closed within bound single
          (executeOperation_ran r call step inputs _ _)

/-! ## Flows -/

/-- How the loop over the remaining steps ends. -/
inductive StepsRan : List StepPlan → FlowLocals → World →
    EStateM.Result Exn (FlowLocals × World) Unit → Prop
  | done {l : FlowLocals} {w : World} : StepsRan [] l w (.ok () (l, w))
  | next {step : StepPlan} {steps : List StepPlan} {l l₁ : FlowLocals} {w w₁ : World}
      {result : EStateM.Result Exn (FlowLocals × World) Unit}
      (ran : StepRan r collection call step l w (.ok .next (l₁, w₁)))
      (rest : StepsRan steps l₁ w₁ result) : StepsRan (step :: steps) l w result
  | stop {step : StepPlan} {steps : List StepPlan} {l l₁ : FlowLocals} {w w₁ : World}
      (ran : StepRan r collection call step l w (.ok .stop (l₁, w₁))) :
      StepsRan (step :: steps) l w (.ok () (l₁, w₁))
  | raised {step : StepPlan} {steps : List StepPlan} {l l₁ : FlowLocals} {w w₁ : World} {error : Exn}
      (ran : StepRan r collection call step l w (.error error (l₁, w₁))) :
      StepsRan (step :: steps) l w (.error error (l₁, w₁))

/-- The steps of a flow, from some step on. -/
theorem executeSteps_ran (steps : List StepPlan) (l : FlowLocals) (w : World) :
    StepsRan r collection call steps l w (executeSteps r collection call steps (l, w)) := by
  induction steps generalizing l w with
  | nil => exact .done
  | cons step steps ih =>
    unfold executeSteps
    have ran := executeStep_ran r collection call step l w
    cases result : executeStep r collection call step (l, w) with
    | error error s =>
      rw [result] at ran
      rw [bind_error result]
      exact .raised ran
    | ok control s =>
      rw [result] at ran
      rw [bind_ok result]
      cases control with
      | stop => exact .stop ran
      | next => exact .next ran (ih s.1 s.2)

/-- The failure an exception is recorded as: the error itself, or the bound a timeout hit. -/
inductive FailureOf : Exn → Failure → Prop
  | service (error : ServiceError) : FailureOf (.service error) error
  | bound {error : Exn} {code : ErrorCode}
      (timeout : error = .timeout ∨ ∃ e, error = .service e ∧ e.code ∈ timeoutCodes)
      (mem : code ∈ timeoutCodes) : FailureOf error code.error
  | other : FailureOf .other ErrorCode.dependencyFailure.error

/-- The code of an error in time is one of the time limits. -/
theorem timeoutCode_mem (now deadline : ℚ) : timeoutCode now deadline ∈ timeoutCodes := by
  unfold timeoutCode timeoutCodes
  split <;> simp

/-- The failure that an error is reported as, after idle readings of the clock. -/
theorem failureOf_spec (error : Exn) (w : World) :
    FailureOf error (failureOf r error w).1 ∧ w.Idle (failureOf r error w).2 := by
  cases error with
  | other => exact ⟨.other, .refl w⟩
  | timeout => exact ⟨.bound (.inl rfl) (timeoutCode_mem _ _), .tick w⟩
  | service error =>
    simp only [failureOf]
    by_cases timeout : error.code ∈ timeoutCodes ∧ !error.retryable
    · rw [if_pos timeout]
      exact ⟨.bound (.inr ⟨error, rfl, timeout.1⟩) (timeoutCode_mem _ _), .tick w⟩
    · rw [if_neg timeout]
      exact ⟨.service error, .refl w⟩

/-- Recording an exception only reads the clock and logs the failure. -/
theorem recordFailure_spec (error : Exn) (w : World) :
    ∃ failure w₁, recordFailure r error w = (failure, w₁.append [.failed failure]) ∧
      FailureOf error failure ∧ w.Idle w₁ :=
  ⟨_, _, rfl, failureOf_spec r error w⟩

/-- The data of a flow that failed. -/
def FlowLocals.fail (failure : Failure) (ended : ℚ) (l : FlowLocals) : FlowLocals :=
  match l.active with
  | none => { l with status := .failed, error := some failure }
  | some active =>
      { l with status := .failed, error := some failure }.failStep active failure ended

/-- A failed flow keeps what it recorded and leaves the failure as an event. -/
theorem failFlow_spec (error : Exn) (l : FlowLocals) (w : World) :
    ∃ failure ended w₁ w₂, failFlow r error l w = (l.fail failure ended, w₂) ∧
      FailureOf error failure ∧ w.Idle w₁ ∧ (w₁.append [.failed failure]).Idle w₂ := by
  obtain ⟨failure, w₁, record, of, idle⟩ := recordFailure_spec r error w
  unfold failFlow FlowLocals.fail
  rw [record]
  cases active : l.active with
  | none => exact ⟨failure, 0, w₁, _, rfl, of, idle, .refl _⟩
  | some name => exact ⟨failure, _, w₁, _, rfl, of, idle, .tick _⟩

/-- How the steps of a flow and its output end. -/
inductive FlowBody (started : ℚ) (w : World) :
    EStateM.Result Exn (FlowLocals × World) Unit → Prop
  | finished {l : FlowLocals} {w' : World} {result : Json}
      (steps : StepsRan r collection call call.steps (call.init started) w (.ok () (l, w')))
      (output : projectOutput call l = .ok result) :
      FlowBody started w (.ok () ({ l with result := result }, w'))
  | outputFailed {l : FlowLocals} {w' : World} {error : Exn}
      (steps : StepsRan r collection call call.steps (call.init started) w (.ok () (l, w')))
      (output : projectOutput call l = .error error) :
      FlowBody started w (.error error (l, w'))
  | stepsFailed {l : FlowLocals} {w' : World} {error : Exn}
      (steps : StepsRan r collection call call.steps (call.init started) w (.error error (l, w'))) :
      FlowBody started w (.error error (l, w'))

/-- The steps of a flow and what becomes of their failure. -/
theorem runSteps_body (started : ℚ) (w : World) :
    FlowBody r collection call started w
      (runSteps r collection call call.steps (call.init started, w)) := by
  unfold runSteps
  have steps := executeSteps_ran r collection call call.steps (call.init started) w
  cases ended : executeSteps r collection call call.steps (call.init started, w) with
  | error error s =>
    rw [ended] at steps
    rw [bind_error ended]
    exact .stepsFailed steps
  | ok _ s =>
    rw [ended] at steps
    rw [bind_ok ended, locals_bind]
    cases output : projectOutput call s.1 with
    | error error =>
      rw [bind_error (lift_error _ rfl)]
      exact .outputFailed steps output
    | ok result =>
      rw [bind_ok (lift_ok _ rfl)]
      exact .finished steps output

/-- How the execution of a flow ends. -/
inductive FlowRan (w : World) : (FlowRun × List DecisionIssue) × World → Prop
  | finished {started elapsed : ℚ} {l : FlowLocals} {w' : World}
      (body : FlowBody r collection call started w.tick (.ok () (l, w'))) :
      FlowRan w ((l.run elapsed, l.issues), w'.tick)
  | failed {started ended elapsed : ℚ} {l : FlowLocals} {w₁ w₂ w₃ : World} {error : Exn}
      {failure : Failure}
      (body : FlowBody r collection call started w.tick (.error error (l, w₁)))
      (of : FailureOf error failure) (idle : w₁.Idle w₂)
      (after : (w₂.append [.failed failure]).Idle w₃) :
      FlowRan w (((l.fail failure ended).run elapsed, l.issues), w₃)

/-- A failure keeps the issues. -/
theorem FlowLocals.fail_issues (failure : Failure) (ended : ℚ) (l : FlowLocals) :
    (l.fail failure ended).issues = l.issues := by
  unfold FlowLocals.fail
  cases l.active <;> rfl

/-- A flow's record has the time between its first and its last reading of the clock. -/
theorem executeFlowWith_of_runFlow {w w' : World} {l : FlowLocals}
    (h : runFlow r collection call (r.services.clock w.reads) w.tick = (l, w')) :
    executeFlowWith r collection call w =
      ((l.run (r.services.clock w'.reads - r.services.clock w.reads), l.issues), w'.tick) := by
  simp only [executeFlowWith, h]

/-- One whole run of a flow. -/
theorem executeFlowWith_ran (w : World) :
    FlowRan r collection call w (executeFlowWith r collection call w) := by
  have body := runSteps_body r collection call (r.services.clock w.reads) w.tick
  cases ran : runSteps r collection call call.steps
      (call.init (r.services.clock w.reads), w.tick) with
  | ok _ s =>
    rw [ran] at body
    rw [executeFlowWith_of_runFlow r collection call (by rw [runFlow, ran])]
    exact .finished body
  | error error s =>
    rw [ran] at body
    obtain ⟨failure, ended, w₁, w₂, fails, of, idle, after⟩ := failFlow_spec r error s.1 s.2
    have flow : runFlow r collection call (r.services.clock w.reads) w.tick =
        (s.1.fail failure ended, w₂) := by
      rw [runFlow, ran, ← fails]
    rw [executeFlowWith_of_runFlow r collection call flow, FlowLocals.fail_issues]
    exact .failed body of idle (after.trans (.tick _))

end Flow

end Foliqant.Core
