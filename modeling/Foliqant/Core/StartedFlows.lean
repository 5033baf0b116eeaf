import Foliqant.Common.Emission
import Foliqant.Core.FlowBehavior
import Foliqant.Core.RepeatBehavior

/-!
# Which flows an execution starts

When the allowed flows lead to allowed flows only, through collection steps and retry flows, the
execution of an allowed flow starts allowed flows only.
-/

namespace Foliqant.Core

open Exec Emission

variable {σ τ α β : Type}

/-- Only an allowed flow starts. -/
def StartAllowed (allowed : String → Prop) (event : Event) : Prop :=
  ∀ name role, event = .flowStarted name role → allowed name

section Rules

variable (rely : Event → Prop) (allowed : String → Prop)

/-- The starts of flows that a computation with locals may make. -/
def startRules (keep : σ → Prop) : Rules (σ × World) Event where
  log s := s.2.log
  rely := rely
  guarantee := StartAllowed allowed
  keep s := keep s.1

/-- A computation starts allowed flows only. -/
abbrev Launches (keep : σ → Prop) (pre : Prop) (x : Exec σ α) (post : α → Prop) : Prop :=
  Yields (startRules rely allowed keep) pre x post

/-- Data of which nothing is kept. -/
def Free (σ : Type) (_ : σ) : Prop := True

/-- The starts of flows that a world may see. -/
def worldRules : Rules World Event where
  log := World.log
  rely := rely
  guarantee := StartAllowed allowed
  keep _ := True

/-- A part of a run starts allowed flows only. -/
abbrev Passing (pre : Prop) (w w' : World) : Prop := Emits (worldRules rely allowed) w w' pre True

end Rules

variable {rely : Event → Prop} {allowed : String → Prop} {keep : σ → Prop} {pre : Prop}

/-! ## Computations -/

/-- Events whose starts are allowed. -/
theorem launches_emit {events : List Event}
    (starts : pre → ∀ event ∈ events, StartAllowed allowed event) :
    Launches rely allowed keep pre (emit events : Exec σ Unit) fun _ =>
    ∀ event ∈ events, rely event := by
  intro s
  exact ⟨events, rfl, fun given kept relied => ⟨starts given, kept, fun _ _ _ => relied⟩⟩

/-- A pure computation. -/
theorem launches_lift (x : Except Exn α) :
    Launches rely allowed keep pre (lift x : Exec σ α) fun a => x = .ok a := by
  intro s
  unfold lift
  rcases x with error | a
  · exact (Emits.refl id).mono id fun _ _ b s' ran => nomatch ran
  · refine (Emits.refl id).mono id fun _ _ b s' ran => ?_
    obtain ⟨rfl, -⟩ := EStateM.Result.ok.inj ran
    rfl

/-- Reading the locals. -/
theorem launches_locals : Launches rely allowed keep pre (locals : Exec σ σ) keep := by
  intro s
  refine ⟨[], (List.append_nil _).symm, fun _ kept _ => ⟨List.forall_mem_nil _,
    kept, fun l s' ran => ?_⟩⟩
  have ok : (EStateM.Result.ok s.1 s : EStateM.Result Exn (σ × World) σ) = .ok l s' := ran
  obtain ⟨rfl, -⟩ := EStateM.Result.ok.inj ok
  exact kept

/-- Updating the locals. -/
theorem launches_update {f : σ → σ} (kept : pre → ∀ l, keep l → keep (f l)) :
    Launches rely allowed keep pre (update f) fun _ => True := by
  intro s
  exact ⟨[], (List.append_nil _).symm, fun given held _ => ⟨List.forall_mem_nil _,
    kept given s.1 held, fun _ _ _ => trivial⟩⟩

/-- Reading the clock. -/
theorem launches_now (r : WorkflowRunner) :
    Launches rely allowed keep pre (now r : Exec σ ℚ) fun _ => True := by
  intro s
  exact ⟨[], (List.append_nil _).symm, fun _ kept _ => ⟨List.forall_mem_nil _,
    kept, fun _ _ _ => trivial⟩⟩

/-- Raising. -/
theorem launches_raise {post : α → Prop} (code : ErrorCode) :
    Launches rely allowed keep pre (raise code : Exec σ α) post := by
  intro s
  refine ⟨[], (List.append_nil _).symm, fun _ kept _ => ⟨List.forall_mem_nil _,
    kept, fun a s' ran => ?_⟩⟩
  have failed : (EStateM.Result.error _ s : EStateM.Result Exn (σ × World) α) = .ok a s' := ran
  cases failed

/-- A run that leaves its graph. -/
theorem launches_refuse {post : α → Prop} (fault : GraphFault) :
    Launches rely allowed keep pre (refuse fault : Exec σ α) post := by
  intro s
  refine ⟨[.misrouted fault], rfl, fun _ kept _ => ⟨?_, kept, fun a s' ran => ?_⟩⟩
  · exact List.forall_mem_singleton.mpr fun _ _ => Event.noConfusion
  · rw [refuse_apply] at ran
    cases ran

/-- Checking the deadline. -/
theorem launches_checkDeadline (r : WorkflowRunner) :
    Launches rely allowed keep pre (checkDeadline r : Exec σ Unit) fun _ => True :=
  (launches_now r).seq fun _ => .ite (fun _ => launches_raise _) fun _ => yields_pure fun _ => trivial

/-- A part that never fails. -/
theorem launches_total {x : World → α × World} (passes : ∀ w, Passing rely allowed pre w (x w).2) :
    Launches rely allowed keep pre (total x : Exec σ α) fun _ => True := by
  intro s
  obtain ⟨events, grows, spec⟩ := passes s.2
  refine ⟨events, grows, fun given kept relied => ?_⟩
  obtain ⟨starts, -, -⟩ := spec given trivial relied
  exact ⟨starts, kept, fun _ _ _ => trivial⟩

/-- A computation on the world. -/
theorem launches_onWorld {x : Exec Unit α} {post : α → Prop}
    (h : Launches rely allowed (Free Unit) pre x post) :
    Launches rely allowed keep pre (onWorld x : Exec σ α) post := by
  intro s
  obtain ⟨events, grows, spec⟩ := h ((), s.2)
  unfold onWorld
  rcases ran : x ((), s.2) with ⟨a, t, w⟩ | ⟨error, t, w⟩ <;> rw [ran] at grows spec
  · refine ⟨events, grows, fun given kept relied => ?_⟩
    obtain ⟨starts, -, holds⟩ := spec given trivial relied
    refine ⟨starts, kept, fun b s' same => ?_⟩
    obtain ⟨rfl, -⟩ := EStateM.Result.ok.inj same
    exact holds a _ rfl
  · refine ⟨events, grows, fun given kept relied => ?_⟩
    obtain ⟨starts, -, -⟩ := spec given trivial relied
    exact ⟨starts, kept, fun b s' same => nomatch same⟩

/-- A computation over data of its own. -/
theorem launches_within {data : τ} {x : Exec τ α} {post : α → Prop}
    (h : Launches rely allowed (Free τ) pre x post) :
    Launches rely allowed (Free Unit) pre (within data x) fun pair => post pair.1 := by
  intro s
  obtain ⟨events, grows, spec⟩ := h (data, s.2)
  unfold within
  rcases ran : x (data, s.2) with ⟨a, t, w⟩ | ⟨error, t, w⟩ <;> rw [ran] at grows spec
  · refine ⟨events, grows, fun given kept relied => ?_⟩
    obtain ⟨starts, -, holds⟩ := spec given trivial relied
    refine ⟨starts, kept, fun b s' same => ?_⟩
    obtain ⟨rfl, -⟩ := EStateM.Result.ok.inj same
    exact holds a _ rfl
  · refine ⟨events, grows, fun given kept relied => ?_⟩
    obtain ⟨starts, -, -⟩ := spec given trivial relied
    exact ⟨starts, kept, fun b s' same => nomatch same⟩

/-- Catching a failure. -/
theorem launches_caught {x : Exec σ α} {post : α → Prop} (h : Launches rely allowed keep pre x post) :
    Launches rely allowed keep pre (caught x) fun _ => True := by
  intro s
  have started := h s
  unfold caught
  rcases ran : x s with ⟨a, s'⟩ | ⟨error, s'⟩ <;> rw [ran] at started
  · exact started.mono id fun _ _ _ _ _ => trivial
  · exact started.mono id fun _ _ _ _ _ => trivial

/-- Work on the records of a run keeps what does not depend on them. -/
theorem launches_onRecords {keep : RunLocals → Prop} {x : Exec Records α} {post : α → Prop}
    (h : Launches rely allowed (Free Records) pre x post)
    (kept : ∀ l records, keep l → keep { l with records := records }) :
    Launches rely allowed keep pre (onRecords x) post := by
  intro s
  obtain ⟨events, grows, spec⟩ := h (s.1.records, s.2)
  unfold onRecords
  rcases ran : x (s.1.records, s.2) with ⟨a, t, w⟩ | ⟨error, t, w⟩ <;> rw [ran] at grows spec
  · refine ⟨events, grows, fun given held relied => ?_⟩
    obtain ⟨starts, -, holds⟩ := spec given trivial relied
    refine ⟨starts, kept _ _ held, fun b s' same => ?_⟩
    obtain ⟨rfl, -⟩ := EStateM.Result.ok.inj same
    exact holds a _ rfl
  · refine ⟨events, grows, fun given held relied => ?_⟩
    obtain ⟨starts, -, -⟩ := spec given trivial relied
    exact ⟨starts, kept _ _ held, fun b s' same => nomatch same⟩

/-- Recording an exception starts no flow. -/
theorem passing_recordFailure (r : WorkflowRunner) (error : Exn) (w : World) :
    Passing rely allowed pre w (recordFailure r error w).2 := by
  obtain ⟨failure, w', recorded, -, idle⟩ := recordFailure_spec r error w
  rw [recorded]
  refine ⟨[.failed failure], ?_, fun _ _ _ => ⟨?_, trivial, trivial⟩⟩
  · show w'.log ++ _ = w.log ++ _
    rw [idle.log]
  · exact List.forall_mem_singleton.mpr fun _ _ => Event.noConfusion

/-- Every event starts no flow. -/
def Quiet (events : List Event) : Prop :=
  ∀ event ∈ events, ∀ name role, event ≠ .flowStarted name role

/-- Events without starts are allowed. -/
theorem Quiet.starts {events : List Event} (quiet : Quiet events) :
    ∀ event ∈ events, StartAllowed allowed event :=
  fun event mem name role same => absurd same (quiet event mem name role)

/-- A decided condition starts nothing. -/
theorem quiet_condition (location : String) (result : Bool) :
    Quiet [.conditionEvaluated location result] :=
  List.forall_mem_singleton.mpr fun _ _ => Event.noConfusion

/-- A boundary starts nothing. -/
theorem quiet_boundary (place : Boundary) (records : Records) : Quiet [.boundary place records] :=
  List.forall_mem_singleton.mpr fun _ _ => Event.noConfusion

/-- Events without starts. -/
theorem launches_quiet {events : List Event} (quiet : Quiet events) :
    Launches rely allowed keep pre (emit events : Exec σ Unit) fun _ =>
    ∀ event ∈ events, rely event :=
  launches_emit fun _ => quiet.starts

/-! ## Flows -/

/-- The collection steps and the repeats of allowed flows lead to allowed flows. -/
structure CallsAllowed (plan : WorkflowPlan) (allowed : String → Prop) : Prop where
  collections : ∀ flow ∈ plan.flows, allowed flow.name → ∀ step ∈ flow.steps, ∀ items flows maxItems,
    step.kind = .flowCollection items flows maxItems → ∀ name ∈ flows, allowed name
  retries : ∀ flow ∈ plan.flows, allowed flow.name → ∀ rep, flow.repeatPlan = some rep →
    ∀ name, rep.retryFlow = some name → allowed name

/-- A flow of the workflow that may start. -/
def Permitted (plan : WorkflowPlan) (allowed : String → Prop) (flow : FlowPlan) : Prop :=
  flow ∈ plan.flows ∧ allowed flow.name

section Flow

variable {r : WorkflowRunner} {collection : CollectionCall → Exec Unit StepRecord} {call : FlowCall}
  {step : StepPlan}

/-- Collections of allowed flows start allowed flows only. -/
def CollectionsLaunch (rely : Event → Prop) (allowed : String → Prop)
    (collection : CollectionCall → Exec Unit StepRecord) : Prop :=
  ∀ call pre, (pre → ∀ name ∈ call.flows, allowed name) →
    Launches rely allowed (Free Unit) pre (collection call) fun _ => True

/-- What a step may call. -/
def StepAllowed (allowed : String → Prop) (step : StepPlan) : Prop :=
  ∀ items flows maxItems, step.kind = .flowCollection items flows maxItems →
    ∀ name ∈ flows, allowed name

/-- Calling the executor. -/
theorem launches_callExecutor (inputs : Object) :
    Launches rely allowed (Free FlowLocals) pre (callExecutor r call step inputs) fun _ => True := by
  intro s
  refine ⟨[_], rfl, fun _ _ _ => ⟨?_, trivial, fun _ _ _ => trivial⟩⟩
  exact List.forall_mem_singleton.mpr fun _ _ => Event.noConfusion

/-- Settling what was executed. -/
theorem launches_settle (executed : Executed) :
    Launches rely allowed (Free FlowLocals) pre (settle r executed) fun _ => True := by
  unfold settle
  split
  · exact launches_raise _
  · refine .ite (fun _ => ?_) fun _ => (launches_lift _).drop
    exact (launches_now r).seq fun _ => launches_raise _
  · exact (launches_lift _).drop
  · exact yields_pure fun _ => trivial

/-- A step that calls the executor. -/
theorem launches_executeOperation (inputs : Object) :
    Launches rely allowed (Free FlowLocals) pre (executeOperation r call step inputs) fun _ => True :=
  (launches_callExecutor inputs).seq fun executed => (launches_settle executed).seq fun _ =>
    (launches_checkDeadline r).seq fun _ => (launches_lift _).seq fun _ =>
      (launches_now r).seq fun _ => (launches_update fun _ _ _ => trivial).seq fun _ =>
        yields_pure fun _ => trivial

/-- A step of any kind. -/
theorem launches_executeKind (collections : CollectionsLaunch rely allowed collection)
    (permits : pre → StepAllowed allowed step) (inputs : Object) :
    Launches rely allowed (Free FlowLocals) pre (executeKind r collection call step inputs)
      fun _ => True := by
  unfold executeKind
  split
  case h_1 items flows maxItems kind =>
    have called : Launches rely allowed (Free Unit) pre
        (collection ⟨flows, maxItems, inputs, call.envelope, call.collectionDepth⟩) fun _ => True :=
      collections _ pre fun given => permits given items flows maxItems kind
    exact (launches_onWorld called).seq fun _ => (launches_update fun _ _ _ => trivial).seq fun _ =>
      yields_pure fun _ => trivial
  all_goals exact launches_executeOperation inputs

/-- Reserving a step. -/
theorem launches_reserveStep :
    Launches rely allowed (Free FlowLocals) pre (reserveStep r) fun _ => True := by
  intro s
  unfold reserveStep
  split
  · refine ⟨[.limitReached], rfl, fun _ _ _ => ⟨?_, trivial, fun _ _ _ => trivial⟩⟩
    exact List.forall_mem_singleton.mpr fun _ _ => Event.noConfusion
  · exact ⟨[], (List.append_nil _).symm,
      fun _ _ _ => ⟨List.forall_mem_nil _, trivial, fun _ _ _ => trivial⟩⟩

/-- One step. -/
theorem launches_executeStep (collections : CollectionsLaunch rely allowed collection)
    (permits : pre → StepAllowed allowed step) :
    Launches rely allowed (Free FlowLocals) pre (executeStep r collection call step) fun _ =>
    True := by
  have skipped : Quiet [.conditionEvaluated ("steps." ++ step.name ++ ".when") false,
      .stepSkipped call.flow.name step.name] :=
    List.forall_mem_cons.mpr ⟨fun _ _ => Event.noConfusion,
      List.forall_mem_singleton.mpr fun _ _ => Event.noConfusion⟩
  have started (guarded : Option Bool) : Quiet (.stepStarted call.flow.name step.name ::
      if guarded = some true then [.conditionEvaluated ("steps." ++ step.name ++ ".when") true]
      else []) := by
    refine List.forall_mem_cons.mpr ⟨fun _ _ => Event.noConfusion, ?_⟩
    split
    · exact quiet_condition _ _
    · exact List.forall_mem_nil _
  refine (launches_checkDeadline r).seq fun _ => launches_locals.seq fun l =>
    (launches_lift _).seq fun guarded => .ite (fun _ => ?_) fun _ => ?_
  · exact (launches_quiet skipped).seq fun _ => yields_pure fun _ => trivial
  · refine launches_reserveStep.seq fun _ => ?_
    have startStep : Launches rely allowed (Free FlowLocals) pre (startStep r step) fun _ => True :=
      (launches_now r).seq fun _ => launches_update fun _ _ _ => trivial
    exact startStep.seq fun _ => (launches_quiet (started guarded)).seq fun _ =>
      launches_locals.seq fun l => (launches_lift _).seq fun inputs =>
        launches_executeKind collections permits inputs

/-- The steps of a flow. -/
theorem launches_executeSteps (collections : CollectionsLaunch rely allowed collection)
    (steps : List StepPlan) (permits : pre → ∀ step ∈ steps, StepAllowed allowed step) :
    Launches rely allowed (Free FlowLocals) pre (executeSteps r collection call steps) fun _ =>
    True := by
  induction steps with
  | nil => exact yields_pure fun _ => trivial
  | cons step rest ih =>
    refine (launches_executeStep collections fun given => permits given step List.mem_cons_self).seq
      fun control => ?_
    rcases control with _ | _
    · exact ih fun given other mem => permits given other (List.mem_cons_of_mem _ mem)
    · exact yields_pure fun _ => trivial

/-- The steps of a flow, with their failure caught. -/
theorem launches_runSteps (collections : CollectionsLaunch rely allowed collection)
    {steps : List StepPlan} (permits : pre → ∀ step ∈ steps, StepAllowed allowed step) :
    Launches rely allowed (Free FlowLocals) pre (runSteps r collection call steps) fun _ => True :=
  (launches_executeSteps collections steps permits).seq fun _ => launches_locals.seq fun _ =>
    (launches_lift _).seq fun _ => launches_update fun _ _ _ => trivial

/-- The world of a computation over data that is dropped. -/
theorem Launches.passing {x : Exec σ α} {post : α → Prop}
    (h : Launches rely allowed (Free σ) pre x post)
    (s : σ × World) : Passing rely allowed pre s.2 (after (x s)).2 := by
  obtain ⟨events, grows, spec⟩ := h s
  exact ⟨events, grows, fun given _ relied => ⟨(spec given trivial relied).1, trivial, trivial⟩⟩

/-- Nothing idle starts a flow. -/
theorem passing_idle {w w' : World} (idle : w.Idle w') : Passing rely allowed pre w w' :=
  ⟨[], by rw [List.append_nil]; exact idle.log, fun _ _ _ => ⟨List.forall_mem_nil _,
    trivial, trivial⟩⟩

/-- What comes after what was allowed. -/
theorem Passing.andThen {w w' w'' : World} (first : Passing rely allowed pre w w')
    (second : Passing rely allowed pre w' w'') : Passing rely allowed pre w w'' :=
  first.trans (second.mono And.left fun _ => id)

/-- A whole flow. -/
theorem passing_runFlow (collections : CollectionsLaunch rely allowed collection)
    (permits : pre → ∀ step ∈ call.steps, StepAllowed allowed step) (started : ℚ) (w : World) :
    Passing rely allowed pre w (runFlow r collection call started w).2 := by
  have steps : Passing rely allowed pre w
      (after (runSteps r collection call call.steps (call.init started, w))).2 :=
    (launches_runSteps collections permits).passing (call.init started, w)
  unfold runFlow
  rcases ran : runSteps r collection call call.steps
    (call.init started, w) with ⟨_, l, w'⟩ | ⟨error, l, w'⟩
  all_goals rw [ran] at steps
  · exact steps
  · refine steps.andThen ?_
    have recorded : Passing rely allowed pre w' (recordFailure r error w').2 :=
      passing_recordFailure r error w'
    unfold failFlow
    dsimp only
    split
    · exact recorded
    · exact recorded.andThen (passing_idle (.tick _))

/-- A run of a flow, with its times. -/
theorem passing_executeFlowWith (collections : CollectionsLaunch rely allowed collection)
    (permits : pre → ∀ step ∈ call.steps, StepAllowed allowed step) (w : World) :
    Passing rely allowed pre w (executeFlowWith r collection call w).2 :=
  (passing_idle (.tick w)).andThen
    ((passing_runFlow collections permits _ w.tick).andThen (passing_idle (.tick _)))

end Flow

/-! ## Repeats and collections -/

section Repeat

variable {r : WorkflowRunner} {run : FlowCall → World → (FlowRun × List DecisionIssue) × World}

/-- Executions of allowed flows start allowed flows only. -/
def RunsLaunch (rely : Event → Prop) (allowed : String → Prop) (plan : WorkflowPlan)
    (run : FlowCall → World → (FlowRun × List DecisionIssue) × World) : Prop :=
  ∀ call pre, (pre → Permitted plan allowed call.flow) → ∀ w,
    Passing rely allowed pre w (run call w).2

/-- Deciding a condition. -/
theorem launches_holds (location : String) (condition : ConditionPlan) (context : Json) :
    Launches rely allowed (Free Records) pre (holds r location condition context) fun met =>
      evaluateCondition r.services.tables context condition = .ok met :=
  (launches_lift _).bind fun met => (launches_quiet (quiet_condition location met)).seq fun _ =>
    yields_pure And.right

/-- Resolving an input. -/
theorem launches_flowInput (place : Boundary) (name : String) (bindings : Bindings)
    (envelope : AcceptedEnvelope) :
    Launches rely allowed (Free Records) pre (flowInput r place name bindings envelope) fun _ =>
    True :=
  launches_locals.seq fun records => (launches_quiet (quiet_boundary place records)).seq fun _ =>
    (launches_lift _).seq fun _ => (launches_lift _).seq fun _ => yields_pure fun _ => trivial

variable {flow : FlowPlan} {rep : RepeatPlan} {scope : RepeatScope}

/-- Deciding after a retry run. -/
theorem launches_afterRetry (issues : List DecisionIssue) (record : FlowRun)
    (retryIssues : List DecisionIssue) :
    Launches rely allowed (Free Records) pre (afterRetry r rep scope issues record retryIssues)
      fun _ => True := by
  refine .ite (fun _ => yields_pure fun _ => trivial) fun _ =>
    .ite (fun _ => yields_pure fun _ => trivial) fun _ => ?_
  split
  · exact yields_pure fun _ => trivial
  · exact launches_locals.seq fun _ => (launches_holds _ _ _).seq fun met =>
      .ite (fun _ => yields_pure fun _ => trivial) fun _ => yields_pure fun _ => trivial

/-- A retry run. -/
theorem launches_runRetry (calls : CallsAllowed r.plan allowed)
    (runs : RunsLaunch rely allowed r.plan run)
    (permits : pre → Permitted r.plan allowed flow ∧ flow.repeatPlan = some rep) (attempt : ℕ)
    (issues : List DecisionIssue) :
    Launches rely allowed (Free Records) pre (runRetry r run flow rep scope attempt issues)
      fun _ => True := by
  unfold runRetry
  split
  case h_1 => exact yields_pure fun _ => trivial
  case h_2 name retries =>
    split
    case h_1 => exact (launches_lift _).drop
    case h_2 retry known =>
      have retryPermitted : pre → Permitted r.plan allowed retry := by
        intro given
        obtain ⟨⟨mem, allowed⟩, repeats⟩ := permits given
        refine ⟨WorkflowPlan.flow?_mem known, ?_⟩
        exact WorkflowPlan.flow?_name known ▸ calls.retries flow mem allowed rep repeats name retries
      refine (launches_caught (launches_flowInput _ _ _ _)).seq fun bound => ?_
      rcases bound with error | inputs
      · exact (launches_total fun w => passing_recordFailure r error w).seq fun _ =>
          (launches_update fun _ _ _ => trivial).seq fun _ => yields_pure fun _ => trivial
      · have starts : pre → ∀ event ∈ [Event.flowStarted retry.name .retry],
            StartAllowed allowed event := by
          intro given
          refine List.forall_mem_singleton.mpr fun name role same => ?_
          obtain ⟨rfl, -⟩ := Event.flowStarted.inj same
          exact (retryPermitted given).2
        exact (launches_emit starts).seq fun _ => (launches_lift _).seq fun envelope =>
          (launches_total (runs _ pre retryPermitted)).seq fun _ =>
            (launches_update fun _ _ _ => trivial).seq fun _ => launches_afterRetry _ _ _

/-- Resolving the next input. -/
theorem launches_nextInputs :
    Launches rely allowed (Free Records) pre (nextInputs r flow rep scope) fun _ => True := by
  refine (launches_checkDeadline r).seq fun _ => ?_
  split
  · exact launches_flowInput _ _ _ _
  · exact launches_locals.seq fun records => (launches_quiet (quiet_boundary _ _)).seq fun _ =>
      (launches_lift _).seq fun _ => (launches_lift _).seq fun _ => yields_pure fun _ => trivial

/-- What is decided after an attempt. -/
theorem launches_repeatDecision (calls : CallsAllowed r.plan allowed)
    (runs : RunsLaunch rely allowed r.plan run)
    (permits : pre → Permitted r.plan allowed flow ∧ flow.repeatPlan = some rep) (record : FlowRun)
    (attempt : ℕ) (issues : List DecisionIssue) :
    Launches rely allowed (Free Records) pre
    (repeatDecision r run flow rep scope record attempt issues)
      fun _ => True := by
  refine .ite (fun _ => yields_pure fun _ => trivial) fun _ =>
    .ite (fun _ => yields_pure fun _ => trivial) fun _ => launches_locals.seq fun _ =>
      (launches_holds _ _ _).seq fun met => .ite (fun _ => yields_pure fun _ => trivial) fun _ =>
        .ite (fun _ => yields_pure fun _ => trivial) fun _ => ?_
  refine (launches_runRetry calls runs permits attempt issues).seq fun decision => ?_
  rcases decision with _ | decision
  · refine (launches_caught launches_nextInputs).seq fun next => ?_
    rcases next with error | inputs
    · exact (launches_total fun w => passing_recordFailure r error w).seq fun _ =>
        yields_pure fun _ => trivial
    · exact yields_pure fun _ => trivial
  · exact yields_pure fun _ => trivial

end Repeat

section Collection

variable {r : WorkflowRunner} {run : FlowCall → World → (FlowRun × List DecisionIssue) × World}

/-- The items of a batch call the flows of the step. -/
theorem launches_validateItems (flows seen : List String) (raw : List Json) :
    Launches rely allowed (Free Unit) pre (validateItems r flows seen raw) fun items =>
      ∀ item ∈ items, item.flow ∈ r.plan.flows ∧ item.flow.name ∈ flows := by
  induction raw generalizing seen pre with
  | nil => exact yields_pure fun _ => List.forall_mem_nil _
  | cons item rest ih =>
    refine (launches_checkDeadline r).seq fun _ => ?_
    split
    case h_1 => exact launches_raise _
    case h_2 id name payload parts =>
      refine .ite (fun _ => launches_raise _) fun accepted => ?_
      split
      case h_1 => exact launches_refuse _
      case h_2 flow known =>
        have called : flow ∈ r.plan.flows ∧ flow.name ∈ flows := by
          refine ⟨WorkflowPlan.flow?_mem known, ?_⟩
          rw [WorkflowPlan.flow?_name known]
          exact not_not.mp fun unknown => accepted (.inr (.inr unknown))
        refine .ite (fun _ => launches_refuse _) fun _ => (launches_lift _).seq fun _ =>
          (ih _).bind fun others => yields_pure fun ⟨_, each⟩ => ?_
        exact List.forall_mem_cons.mpr ⟨called, each⟩

/-- The start of an allowed flow. -/
theorem launches_start {name : String} {role : FlowRole} (permits : pre → allowed name) :
    Launches rely allowed keep pre (emit [.flowStarted name role] : Exec σ Unit) fun _ => True := by
  refine (launches_emit fun given => List.forall_mem_singleton.mpr fun other _ same => ?_).drop
  obtain ⟨rfl, -⟩ := Event.flowStarted.inj same
  exact permits given

/-- The attempts of one item. -/
theorem launches_runItemAttempts (calls : CallsAllowed r.plan allowed)
    (runs : RunsLaunch rely allowed r.plan run) {rep : RepeatPlan} {item : Item} {scope : RepeatScope}
    (permits : pre → Permitted r.plan allowed item.flow ∧ item.flow.repeatPlan = some rep)
    (remaining : ℕ) (attempts : List FlowRun) (records : Records) (inputs : Object) :
    Launches rely allowed (Free Unit) pre
      (runItemAttempts r run rep item scope remaining attempts records inputs) fun _ => True := by
  induction remaining generalizing attempts records inputs with
  | zero => exact launches_refuse _
  | succ remaining ih =>
    refine (launches_start fun given => (permits given).1.2).seq fun _ =>
        (launches_lift _).seq fun _ =>
      (launches_total (runs _ pre fun given => (permits given).1)).seq fun _ =>
        (launches_within (launches_repeatDecision calls runs permits _ _ _)).seq fun decision => ?_
    rcases decision with ⟨_ | _, _⟩
    · exact (launches_quiet (List.forall_mem_singleton.mpr fun _ _ => Event.noConfusion)).seq fun _ =>
        yields_pure fun _ => trivial
    · exact ih _ _ _

/-- One item. -/
theorem launches_runItem (calls : CallsAllowed r.plan allowed)
    (runs : RunsLaunch rely allowed r.plan run)
    (call : CollectionCall) {item : Item} (permits : pre → Permitted r.plan allowed item.flow) :
    Launches rely allowed (Free Unit) pre (runItem r run call item) fun _ => True := by
  refine (launches_lift _).seq fun _ => ?_
  split
  case h_1 rep repeats =>
    exact launches_runItemAttempts calls runs (fun given => ⟨permits given, repeats⟩) _ _ _ _
  case h_2 =>
    exact (launches_start fun given => (permits given).2).seq fun _ =>
      (launches_total (runs _ pre permits)).seq fun _ => yields_pure fun _ => trivial

/-- The items of a collection. -/
theorem launches_runItems (calls : CallsAllowed r.plan allowed)
    (runs : RunsLaunch rely allowed r.plan run)
    (call : CollectionCall) (usage : Usage) (status : Status) {items : List Item}
    (permits : pre → ∀ item ∈ items, Permitted r.plan allowed item.flow) :
    Launches rely allowed (Free Unit) pre (runItems r run call usage status items) fun _ => True := by
  induction items generalizing usage status with
  | nil => exact yields_pure fun _ => trivial
  | cons item rest ih =>
    refine (launches_runItem calls runs call fun given => permits given item List.mem_cons_self).seq
      fun ran => .ite (fun _ => yields_pure fun _ => trivial) fun _ => ?_
    refine (ih _ _ fun given other mem => permits given other (List.mem_cons_of_mem _ mem)).seq
      fun _ => yields_pure fun _ => trivial

/-- A whole collection. -/
theorem collectionsLaunch (calls : CallsAllowed r.plan allowed)
    (runs : RunsLaunch rely allowed r.plan run) :
    CollectionsLaunch rely allowed (executeCollection r run) := by
  intro call pre permits
  refine (launches_now r).seq fun _ => .ite (fun _ => launches_refuse _) fun _ => ?_
  split
  case h_1 raw batch =>
    refine .ite (fun _ => launches_raise _) fun _ => ?_
    refine (launches_validateItems call.flows [] raw).bind fun items => ?_
    refine (launches_runItems calls runs call {} .completed fun ⟨given, each⟩ item mem => ?_).seq
      fun _ => (launches_lift _).seq fun _ => (launches_now r).seq fun _ =>
        yields_pure fun _ => trivial
    exact ⟨(each item mem).1, permits given _ (each item mem).2⟩
  case h_2 => exact launches_raise _

/-- The steps of a call are steps of its flow. -/
theorem steps_of_call {call : FlowCall} {step : StepPlan} (mem : step ∈ call.steps) :
    step ∈ call.flow.steps := by
  unfold FlowCall.steps at mem
  split at mem
  · exact mem
  · exact List.mem_of_mem_filter mem

/-- The steps of a permitted flow are allowed. -/
theorem permits_steps (calls : CallsAllowed r.plan allowed) {call : FlowCall}
    (permitted : Permitted r.plan allowed call.flow) :
    ∀ step ∈ call.steps, StepAllowed allowed step :=
  fun step mem => calls.collections call.flow permitted.1 permitted.2 step (steps_of_call mem)

/-- Flows start only allowed ones at every depth of nested collections. -/
theorem runsLaunch_to (calls : CallsAllowed r.plan allowed) (depth : ℕ) :
    RunsLaunch rely allowed r.plan (executeFlowTo r depth) := by
  induction depth with
  | zero =>
    intro call pre permits w
    have collections : CollectionsLaunch rely allowed fun _ => now r >>= fun _ =>
        refuse .collectionDepth :=
      fun _ _ _ => (launches_now r).seq fun _ => launches_refuse _
    exact passing_executeFlowWith collections (fun given => permits_steps calls (permits given)) w
  | succ depth ih =>
    intro call pre permits w
    exact passing_executeFlowWith (collectionsLaunch calls ih)
      (fun given => permits_steps calls (permits given)) w

/-- The execution of an allowed flow starts allowed flows only. -/
theorem runsLaunch (calls : CallsAllowed r.plan allowed) :
    RunsLaunch rely allowed r.plan (executeFlow r) :=
  fun call => runsLaunch_to calls _ call

end Collection

end Foliqant.Core
