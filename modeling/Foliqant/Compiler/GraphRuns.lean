import Foliqant.Common.Metering
import Foliqant.Compiler.BudgetSpec
import Foliqant.Compiler.Routing
import Foliqant.Core.RepeatProtocol
import Foliqant.Core.RunRecords
import Foliqant.Core.StartedFlows

/-!
# Runs of an accepted graph

Every flow of an accepted workflow has a level, above the levels of the flows that its collections call,
and a worst number of steps. An execution of a flow takes at most its worst number of steps, below the
depth limit of collections, and fails none of the checks that the graph should rule out.
-/

namespace Foliqant.Compiler

open Foliqant.Core Exec Metering
open Emission (after)

/-! ## Levels and worst steps -/

/-- What the levels and the worst steps of the flows promise. -/
structure Measured (plan : WorkflowPlan) (level : String → ℕ) (worst : String → Option ℕ) : Prop where
  level_le : ∀ flow ∈ plan.flows, level flow.name ≤ MAX_COLLECTION_DEPTH
  calls : ∀ flow ∈ plan.flows, ∀ name ∈ collectionTargets flow,
    isCallable plan name = true ∧ level name < level flow.name
  retries : ∀ flow ∈ plan.flows, ∀ rep retry, flow.repeatPlan = some rep →
      rep.retryFlow = some retry →
    level retry ≤ level flow.name ∧
      ∃ target, plan.flow? retry = some target ∧ target.repeatPlan = none
  bounds : ∀ flow ∈ plan.flows, ∃ own retry, stepsCost worst flow.steps = some own ∧
    retryCost worst flow = some retry ∧
      worst flow.name = some (attemptsCost flow.repeatPlan own retry)

section Accepted

variable {plan : WorkflowPlan} {retryOf : List (String × String)} {graph : Graph}

/-- The depth of a flow is at least that of a flow behind one of its edges, with the nesting of the
edge. -/
theorem le_callDepth {depths : List (String × ℕ)} {name : String} {edge : String × ℕ}
    (mem : edge ∈ ofName plan (edges retryOf) name) :
    (depths.lookup edge.1).getD 0 + edge.2 ≤ callDepth plan retryOf depths name :=
  le_foldl_max (.inr (List.mem_map.mpr ⟨edge, mem, rfl⟩))

/-- The depth that is accepted for a flow is its depth of calls. -/
theorem finishFlow_spec {depths : List (String × ℕ)} {name : String} {depth : ℕ}
    (h : finishFlow plan retryOf depths name = .ok depth) :
    depth = callDepth plan retryOf depths name ∧ depth ≤ MAX_COLLECTION_DEPTH := by
  obtain ⟨_, within, same⟩ := Except.bind_eq_ok.mp h
  obtain rfl := Except.pure_eq_ok.mp same
  exact ⟨rfl, of_decide_eq_true (require_eq_ok.mp within)⟩

/-- The levels of the flows as the search finds them. -/
def levelOf (visited : List (String × ℕ)) (name : String) : ℕ := (visited.lookup name).getD 0

/-- The level of a visited flow is at most the depth limit, and at least that of a flow behind an edge
with the nesting of the edge. -/
theorem levelOf_spec {visited : List (String × ℕ)}
    (topological : DepthFirst.Topological (successors plan retryOf) (finishFlow plan retryOf) visited)
    {name : String} (mem : name ∈ Dict.keys visited) :
    levelOf visited name ≤ MAX_COLLECTION_DEPTH ∧
      ∀ edge ∈ ofName plan (edges retryOf) name,
        levelOf visited edge.1 + edge.2 ≤ levelOf visited name := by
  obtain ⟨before, depth, finished, known, same⟩ := topological.finished mem
  obtain ⟨rfl, within⟩ := finishFlow_spec finished
  have level : levelOf visited name = callDepth plan retryOf before name := by
    rw [levelOf, known, Option.getD_some]
  rw [level]
  refine ⟨within, fun edge along => ?_⟩
  have below := @le_callDepth _ _ before _ _ along
  rwa [← same edge.1 (List.mem_map_of_mem along)] at below

/-- The flows of an accepted graph are measured. -/
theorem Accepts.measured (h : Accepts plan retryOf graph) :
    ∃ level, Measured plan level (worstSteps plan (pathFuel plan)) := by
  obtain ⟨visited, topological, all, -, -⟩ := h.order
  refine ⟨levelOf visited, ?_, ?_, ?_, ?_⟩
  · exact fun flow mem => (levelOf_spec topological (all flow mem)).1
  · intro flow mem name called
    refine ⟨h.call_callable mem called, ?_⟩
    refine (levelOf_spec topological (all flow mem)).2 (name, 1) ?_
    rw [ofName_of_mem _ mem, edges, List.mem_eraseDups]
    exact List.mem_append_left _ (List.mem_append_right _ (List.mem_map.mpr ⟨name, called, rfl⟩))
  · intro flow mem rep retry repeats retries
    have owned := h.owners.owns flow mem rep retry repeats retries
    obtain ⟨-, target, known, -, single⟩ := h.owners.accepted _ owned
    refine ⟨?_, target, known, single⟩
    refine (levelOf_spec topological (all flow mem)).2 (retry, 0) ?_
    rw [ofName_of_mem _ mem, edges, List.mem_eraseDups]
    refine List.mem_append_right _ (List.mem_map.mpr ⟨retry, ?_, rfl⟩)
    exact List.mem_map.mpr ⟨(retry, flow.name), List.mem_filter.mpr ⟨owned, decide_eq_true rfl⟩, rfl⟩
  · intro flow mem
    obtain ⟨n, bound⟩ := h.worstSteps_total mem
    obtain ⟨found, own, retry, known, steps, retries, rfl⟩ := worstSteps_eq_some.mp bound
    obtain rfl : flow = found := Option.some.inj ((WorkflowPlan.flow?_of_mem mem).symm.trans known)
    have more : ∀ name n, worstSteps plan plan.flows.length name = some n →
        worstSteps plan (pathFuel plan) name = some n := fun _ _ => worstSteps_succ
    exact ⟨own, retry, stepsCost_mono more steps, retryCost_mono more retries, bound⟩

end Accepted

/-! ## Computations -/

section Rules

variable (r : WorkflowRunner)

/-- The two ends of a routed flow. -/
def OnRoute (place : Boundary) : Prop := ∃ name, place = .input name ∨ place = .routes name

/-- A check of the graph failed, or a routed flow begins or ends. -/
def Strays (event : Event) : Prop :=
  (∃ fault, event = .misrouted fault) ∨ ∃ place records, OnRoute place ∧
    event = .boundary place records

/-- The meter of a run counts its steps. -/
def stepMeter (σ : Type) : Meter (σ × World) Event where
  log s := s.2.log
  spent s := s.2.consumed
  limit := r.limits.maxSteps
  stopped event := event = .limitReached
  excluded := Strays

/-- The meter of steps: what was consumed, and the limit that stops it. -/
def worldMeter : Meter World Event where
  log := World.log
  spent := World.consumed
  limit := r.limits.maxSteps
  stopped event := event = .limitReached
  excluded := Strays

/-- A computation takes at most some steps, and stays on the graph. -/
abbrev Takes {σ α : Type} (n : ℕ) (x : Exec σ α) (post : α → Prop) : Prop :=
  Costs (stepMeter r σ) n x post

/-- A part of a run takes at most some steps, and stays on the graph. -/
abbrev Steps (n : ℕ) (w w' : World) : Prop := Spends (worldMeter r) n w w'

/-- Events that neither stray nor reach the limit. -/
def Calm (events : List Event) : Prop := ∀ event ∈ events, ¬ Strays event ∧ event ≠ .limitReached

end Rules

variable {r : WorkflowRunner} {σ τ α β : Type} {n : ℕ}

/-- Calm events never leave the graph or stop the run. -/
theorem Calm.spends {events : List Event} (calm : Calm events) {limit : ℕ} :
    ∀ event ∈ events, ¬ Strays event ∧ (event = .limitReached → limit < n) :=
  fun event mem => ⟨(calm event mem).1, fun reached => absurd reached (calm event mem).2⟩

/-- No events are calm. -/
theorem calm_nil : Calm [] := List.forall_mem_nil _

/-- Calm events, one after the other. -/
theorem calm_cons {event : Event} {events : List Event} (stays : ¬ Strays event)
    (free : event ≠ .limitReached) (rest : Calm events) : Calm (event :: events) :=
  List.forall_mem_cons.mpr ⟨⟨stays, free⟩, rest⟩

/-- Calm events after calm ones. -/
theorem calm_append {events more : List Event} (first : Calm events) (rest : Calm more) :
    Calm (events ++ more) :=
  List.forall_mem_append.mpr ⟨first, rest⟩

/-- Events other than a failed check, an end of a routed flow and the limit are calm. -/
theorem calm_single {event : Event} (check : ∀ fault, event ≠ .misrouted fault)
    (inside : ∀ place records, event = .boundary place records → ¬ OnRoute place)
    (free : event ≠ .limitReached) : Calm [event] := by
  refine calm_cons ?_ free calm_nil
  rintro (⟨fault, same⟩ | ⟨place, records, end_, same⟩)
  · exact check fault same
  · exact inside place records same end_

/-- A decided condition is calm. -/
theorem calm_condition (location : String) (result : Bool) :
    Calm [.conditionEvaluated location result] :=
  calm_single (fun _ => Event.noConfusion) (fun _ _ => Event.noConfusion) Event.noConfusion

/-- The start of a flow is calm. -/
theorem calm_started (name : String) (role : FlowRole) : Calm [.flowStarted name role] :=
  calm_single (fun _ => Event.noConfusion) (fun _ _ => Event.noConfusion) Event.noConfusion

/-- A boundary inside a flow is calm. -/
theorem calm_boundary {place : Boundary} (inside : ¬ OnRoute place) (records : Records) :
    Calm [.boundary place records] := by
  refine calm_single (fun _ => Event.noConfusion) (fun other _ same => ?_) Event.noConfusion
  obtain ⟨rfl, -⟩ := Event.boundary.inj same
  exact inside

/-- The input of a retry run is inside a flow. -/
theorem inside_retryInput (name : String) : ¬ OnRoute (.retryInput name) := by
  rintro ⟨other, same | same⟩ <;> cases same

/-- The next input of a repeat is inside a flow. -/
theorem inside_nextInput (name : String) : ¬ OnRoute (.nextInput name) := by
  rintro ⟨other, same | same⟩ <;> cases same

/-- The output is not on a route. -/
theorem inside_output : ¬ OnRoute .output := by
  rintro ⟨other, same | same⟩ <;> cases same

/-- Decided conditions are calm. -/
theorem calm_conditions {events : List Event} (conditions : Conditions events) : Calm events := by
  intro event mem
  obtain ⟨location, result, rfl⟩ := conditions event mem
  exact calm_condition location result _ (List.mem_singleton_self _)

/-- Calm events take no step. -/
theorem steps_append {events : List Event} (calm : Calm events) (w : World) :
    Steps r 0 w (w.append events) :=
  ⟨events, rfl, Nat.le_refl _, calm.spends⟩

/-- Nothing idle takes a step. -/
theorem steps_idle {w w' : World} (idle : w.Idle w') : Steps r 0 w w' :=
  ⟨[], by rw [List.append_nil]; exact idle.log, Nat.le_of_eq idle.consumed, List.forall_mem_nil _⟩

/-- A computation that takes these steps on every state. -/
theorem takes_of_steps {x : Exec σ α} {post : α → Prop} (steps : ∀ s, Steps r n s.2 (after (x s)).2)
    (value : ∀ s a s', x s = .ok a s' → post a) : Takes r n x post := fun s =>
  ⟨steps s, value s⟩

/-- The steps that a computation takes. -/
theorem Takes.steps {x : Exec σ α} {post : α → Prop} (h : Takes r n x post) (s : σ × World) :
    Steps r n s.2 (after (x s)).2 := (h s).1

/-- Calm events. -/
theorem takes_emit {events : List Event} (calm : Calm events) :
    Takes r 0 (emit events : Exec σ Unit) fun _ => True :=
  takes_of_steps (fun s => steps_append calm s.2) fun _ _ _ _ => trivial

/-- A pure computation. -/
theorem takes_lift (x : Except Exn α) : Takes r 0 (lift x : Exec σ α) fun a => x = .ok a := by
  intro s
  cases x with
  | error error => exact ⟨Spends.refl s, fun a s' ran => nomatch ran⟩
  | ok a =>
    refine ⟨Spends.refl s, fun b s' ran => ?_⟩
    obtain ⟨rfl, -⟩ := EStateM.Result.ok.inj ran
    rfl

/-- Reading the locals. -/
theorem takes_locals : Takes r 0 (locals : Exec σ σ) fun _ => True :=
  fun s => ⟨Spends.refl s, fun _ _ _ => trivial⟩

/-- Updating the locals. -/
theorem takes_update (f : σ → σ) : Takes r 0 (update f) fun _ => True :=
  takes_of_steps (fun s => Spends.refl s.2) fun _ _ _ _ => trivial

/-- Reading the clock. -/
theorem takes_now : Takes r 0 (now r : Exec σ ℚ) fun _ => True :=
  takes_of_steps (fun s => steps_idle (.tick s.2)) fun _ _ _ _ => trivial

/-- Raising. -/
theorem takes_raise {post : α → Prop} (code : ErrorCode) :
    Takes r 0 (raise code : Exec σ α) post := by
  refine takes_of_steps (fun s => Spends.refl s.2) fun s a s' ran => ?_
  rw [raise_apply] at ran
  cases ran

/-- Checking the deadline. -/
theorem takes_checkDeadline : Takes r 0 (checkDeadline r : Exec σ Unit) fun _ => True :=
  takes_now.free_bind fun _ _ => .ite (fun _ => takes_raise _) fun _ => costs_pure trivial

/-- A part that never fails. -/
theorem takes_total {x : World → α × World} (steps : ∀ w, Steps r n w (x w).2) :
    Takes r n (total x : Exec σ α) fun _ => True :=
  takes_of_steps (fun s => steps s.2) fun _ _ _ _ => trivial

/-- A computation on the world. -/
theorem takes_onWorld {x : Exec Unit α} {post : α → Prop} (h : Takes r n x post) :
    Takes r n (onWorld x : Exec σ α) post := by
  intro s
  have started := h ((), s.2)
  unfold onWorld
  rcases ran : x ((), s.2) with ⟨a, t, w⟩ | ⟨error, t, w⟩ <;> rw [ran] at started
  · refine ⟨started.1, fun b s' same => ?_⟩
    obtain ⟨rfl, -⟩ := EStateM.Result.ok.inj same
    exact started.2 a _ rfl
  · exact ⟨started.1, fun b s' same => nomatch same⟩

/-- A computation over data of its own. -/
theorem takes_within (data : τ) {x : Exec τ α} {post : α → Prop} (h : Takes r n x post) :
    Takes r n (within data x) fun pair => post pair.1 := by
  intro s
  have started := h (data, s.2)
  unfold within
  rcases ran : x (data, s.2) with ⟨a, t, w⟩ | ⟨error, t, w⟩ <;> rw [ran] at started
  · refine ⟨started.1, fun b s' same => ?_⟩
    obtain ⟨rfl, -⟩ := EStateM.Result.ok.inj same
    exact started.2 a _ rfl
  · exact ⟨started.1, fun b s' same => nomatch same⟩

/-- Catching a failure. -/
theorem takes_caught {x : Exec σ α} {post : α → Prop} (h : Takes r n x post) :
    Takes r n (caught x) fun _ => True := by
  intro s
  have started := h s
  unfold caught
  rcases ran : x s with ⟨a, s'⟩ | ⟨error, s'⟩ <;> rw [ran] at started
  · exact ⟨started.1, fun _ _ _ => trivial⟩
  · exact ⟨started.1, fun _ _ _ => trivial⟩

/-- Working on the records. -/
theorem takes_onRecords {x : Exec Records α} {post : α → Prop} (h : Takes r n x post) :
    Takes r n (onRecords x) post := by
  intro s
  have started := h (s.1.records, s.2)
  unfold onRecords
  rcases ran : x (s.1.records, s.2) with ⟨a, t, w⟩ | ⟨error, t, w⟩ <;> rw [ran] at started
  · refine ⟨started.1, fun b s' same => ?_⟩
    obtain ⟨rfl, -⟩ := EStateM.Result.ok.inj same
    exact started.2 a _ rfl
  · exact ⟨started.1, fun b s' same => nomatch same⟩

/-- Reporting a failure takes no step. -/
theorem steps_recordFailure (error : Exn) (w : World) : Steps r 0 w (recordFailure r error w).2 := by
  obtain ⟨failure, w', recorded, -, idle⟩ := recordFailure_spec r error w
  rw [recorded]
  have failed : Calm [.failed failure] :=
    calm_single (fun _ => Event.noConfusion) (fun _ _ => Event.noConfusion) Event.noConfusion
  exact (steps_idle idle).trans (steps_append failed w')

/-! ## Steps of a flow -/

section Flow

variable {collection : CollectionCall → Exec Unit StepRecord} {call : FlowCall} {step : StepPlan}
  {level : String → ℕ} {worst : String → Option ℕ}

/-- A collection that may nest below a depth calls callable flows below that depth. -/
structure CallsBelow (r : WorkflowRunner) (level : String → ℕ) (depth : ℕ) (call : CollectionCall) :
    Prop where
  nonempty : call.flows ≠ []
  callable : ∀ name ∈ call.flows, isCallable r.plan name = true
  below : ∀ name ∈ call.flows, level name < depth
  room : ∀ name ∈ call.flows, call.collectionDepth + level name < MAX_COLLECTION_DEPTH

/-- A collection takes at most the worst steps of its flows for each item. -/
def CollectionsTake (r : WorkflowRunner) (level : String → ℕ) (worst : String → Option ℕ) (depth : ℕ)
    (collection : CollectionCall → Exec Unit StepRecord) : Prop :=
  ∀ call child, CallsBelow r level depth call → costliest worst call.flows = some child →
    Takes r (call.maxItems * child) (collection call) fun _ => True

/-- Calling the executor takes no further step. -/
theorem takes_callExecutor (inputs : Object) :
    Takes r 0 (callExecutor r call step inputs) fun _ => True := by
  refine takes_of_steps (fun s => ⟨[_], rfl, Nat.le_refl _, Calm.spends ?_⟩) fun _ _ _ _ => trivial
  exact calm_single (fun _ => Event.noConfusion) (fun _ _ => Event.noConfusion) Event.noConfusion

/-- Settling what was executed takes no step. -/
theorem takes_settle (executed : Executed) : Takes r 0 (settle r executed) fun _ => True := by
  unfold settle
  split
  · exact takes_raise _
  · refine .ite (fun _ => ?_) fun _ => (takes_lift _).drop
    exact takes_now.free_bind fun _ _ => takes_raise _
  · exact (takes_lift _).drop
  · exact costs_pure trivial

/-- A step that calls the executor takes no further step. -/
theorem takes_executeOperation (inputs : Object) :
    Takes r 0 (executeOperation r call step inputs) fun _ => True :=
  (takes_callExecutor inputs).free_bind fun executed _ => (takes_settle executed).free_bind fun _ _ =>
    takes_checkDeadline.free_bind fun _ _ => (takes_lift _).free_bind fun _ _ =>
      takes_now.free_bind fun _ _ => (takes_update _).free_bind fun _ _ => costs_pure trivial

/-- Taking a step of the limit is the one step that counts. -/
theorem takes_reserveStep : Takes r 1 (reserveStep r) fun _ => True := by
  refine takes_of_steps (fun s => ?_) fun _ _ _ _ => trivial
  unfold reserveStep
  split
  case isTrue reached =>
    refine ⟨[.limitReached], rfl, Nat.le_succ _, List.forall_mem_singleton.mpr ⟨?_, fun _ => ?_⟩⟩
    · rintro (⟨fault, same⟩ | ⟨place, records, -, same⟩)
      · cases same
      · cases same
    · exact Nat.lt_succ_of_le reached
  case isFalse =>
    exact ⟨[], (List.append_nil _).symm, Nat.le_refl _, List.forall_mem_nil _⟩

/-- What a step of a flow may call. -/
def StepBelow (r : WorkflowRunner) (level : String → ℕ) (depth : ℕ) (call : FlowCall)
    (step : StepPlan) :
    Prop :=
  ∀ items flows maxItems, step.kind = .flowCollection items flows maxItems →
    ∀ inputs, CallsBelow r level depth ⟨flows, maxItems, inputs, call.envelope, call.collectionDepth⟩

/-- A step of any kind takes its cost, less the step itself. -/
theorem takes_executeKind {depth : ℕ} (collections : CollectionsTake r level worst depth collection)
    (below : StepBelow r level depth call step) (cost : stepCost worst step = some (n + 1))
    (inputs : Object) : Takes r n (executeKind r collection call step inputs) fun _ => True := by
  unfold executeKind
  unfold stepCost at cost
  split
  case h_1 items flows maxItems kind =>
    simp only [kind, Option.bind_eq_bind, Option.bind_eq_some_iff, Option.pure_def,
      Option.some.injEq] at cost
    obtain ⟨child, bound, total⟩ := cost
    obtain rfl : n = maxItems * child := by omega
    have called := collections _ child (below items flows maxItems kind inputs) bound
    exact (takes_onWorld called).bind_free fun _ _ => (takes_update _).free_bind fun _ _ =>
      costs_pure trivial
  all_goals exact (takes_executeOperation inputs).le (Nat.zero_le n)

/-- One step takes its cost. -/
theorem takes_executeStep {depth : ℕ} (collections : CollectionsTake r level worst depth collection)
    (below : StepBelow r level depth call step) (cost : stepCost worst step = some (n + 1)) :
    Takes r (n + 1) (executeStep r collection call step) fun _ => True := by
  have skipped : Calm [.conditionEvaluated ("steps." ++ step.name ++ ".when") false,
      .stepSkipped call.flow.name step.name] :=
    calm_append (calm_condition _ _)
      (calm_single (fun _ => Event.noConfusion) (fun _ _ => Event.noConfusion) Event.noConfusion)
  have started (guarded : Option Bool) : Calm (.stepStarted call.flow.name step.name ::
      if guarded = some true then [.conditionEvaluated ("steps." ++ step.name ++ ".when") true]
      else []) := by
    have start : Calm [.stepStarted call.flow.name step.name] :=
      calm_single (fun _ => Event.noConfusion) (fun _ _ => Event.noConfusion) Event.noConfusion
    refine List.forall_mem_cons.mpr ⟨start _ (List.mem_singleton_self _), ?_⟩
    split
    · exact calm_condition _ _
    · exact calm_nil
  refine takes_checkDeadline.free_bind fun _ _ => takes_locals.free_bind fun l _ =>
    (takes_lift _).free_bind fun guarded _ => .ite (fun _ => ?_) fun _ => ?_
  · exact ((takes_emit skipped).le (Nat.zero_le _)).bind_free fun _ _ => costs_pure trivial
  · have starts : Takes r 0 (startStep r step) fun _ => True :=
      takes_now.free_bind fun _ _ => takes_update _
    have rest : Takes r n ((do
        startStep r step
        emit (.stepStarted call.flow.name step.name ::
          if guarded = some true then [.conditionEvaluated ("steps." ++ step.name ++ ".when") true]
          else [])
        executeKind r collection call step (← lift (stepInputs call step (← locals))) :
          Exec FlowLocals Control)) fun _ => True :=
      starts.free_bind fun _ _ => (takes_emit (started guarded)).free_bind fun _ _ =>
        takes_locals.free_bind fun l _ => (takes_lift _).free_bind fun inputs _ =>
          takes_executeKind collections below cost inputs
    exact (takes_reserveStep.bind fun _ _ => rest).le (Nat.add_comm 1 n).le

/-- Every step costs at least itself. -/
theorem stepCost_pos {cost : ℕ} (h : stepCost worst step = some cost) : ∃ rest, cost = rest + 1 := by
  unfold stepCost at h
  split at h
  case h_1 items flows maxItems kind =>
    simp only [Option.bind_eq_bind, Option.bind_eq_some_iff, Option.pure_def, Option.some.injEq] at h
    obtain ⟨child, -, rfl⟩ := h
    exact ⟨maxItems * child, Nat.add_comm 1 _⟩
  all_goals exact ⟨0, (Option.some.inj h).symm⟩

/-- The cost of steps is the cost of the first and of the others. -/
theorem stepsCost_cons {steps : List StepPlan} {total : ℕ}
    (h : stepsCost worst (step :: steps) = some total) :
    ∃ first rest, stepCost worst step = some first ∧ stepsCost worst steps = some rest ∧
      total = first + rest := by
  simp only [stepsCost, Option.bind_eq_bind, Option.bind_eq_some_iff, Option.pure_def,
    Option.some.injEq] at h
  obtain ⟨first, known, rest, others, rfl⟩ := h
  exact ⟨first, rest, known, others, rfl⟩

/-- The steps of a flow take their cost. -/
theorem takes_executeSteps {depth : ℕ} (collections : CollectionsTake r level worst depth collection)
    {steps : List StepPlan} (below : ∀ step ∈ steps, StepBelow r level depth call step)
    (cost : stepsCost worst steps = some n) :
    Takes r n (executeSteps r collection call steps) fun _ => True := by
  induction steps generalizing n with
  | nil => exact costs_pure trivial
  | cons step rest ih =>
    obtain ⟨first, others, own, known, rfl⟩ := stepsCost_cons cost
    obtain ⟨more, rfl⟩ := stepCost_pos own
    refine (takes_executeStep collections (below step List.mem_cons_self) own).bind fun control _ =>
      ?_
    rcases control with _ | _
    · exact ih (fun other mem => below other (List.mem_cons_of_mem _ mem)) known
    · exact costs_pure trivial

/-- Some of the steps cost no more than all of them. -/
theorem stepsCost_filter {steps : List StepPlan} (keep : StepPlan → Bool)
    (cost : stepsCost worst steps = some n) :
    ∃ m, stepsCost worst (steps.filter keep) = some m ∧ m ≤ n := by
  induction steps generalizing n with
  | nil => exact ⟨n, cost, Nat.le_refl n⟩
  | cons step rest ih =>
    obtain ⟨first, others, own, known, rfl⟩ := stepsCost_cons cost
    obtain ⟨m, some_, le⟩ := ih known
    by_cases kept : keep step = true
    · rw [List.filter_cons_of_pos kept]
      refine ⟨first + m, ?_, Nat.add_le_add_left le first⟩
      simp [stepsCost, own, some_]
    · rw [List.filter_cons_of_neg kept]
      exact ⟨m, some_, le.trans (Nat.le_add_left _ _)⟩

/-- The steps of a flow take their cost, also when they fail. -/
theorem takes_runSteps {depth : ℕ} (collections : CollectionsTake r level worst depth collection)
    (below : ∀ step ∈ call.flow.steps, StepBelow r level depth call step)
    (cost : stepsCost worst call.flow.steps = some n) :
    Takes r n (runSteps r collection call call.steps) fun _ => True := by
  have steps : ∃ m, stepsCost worst call.steps = some m ∧ m ≤ n := by
    unfold FlowCall.steps
    cases call.stepId with
    | none => exact ⟨n, cost, Nat.le_refl n⟩
    | some id => exact stepsCost_filter _ cost
  obtain ⟨m, own, le⟩ := steps
  have executed : Takes r m (executeSteps r collection call call.steps) fun _ => True :=
    takes_executeSteps collections (fun step mem => below step (steps_of_call mem)) own
  exact (executed.le le).bind_free fun _ _ => takes_locals.free_bind fun _ _ =>
    (takes_lift _).free_bind fun _ _ => takes_update _

/-- A run of a flow takes the cost of its steps. -/
theorem steps_executeFlowWith {depth : ℕ}
    (collections : CollectionsTake r level worst depth collection)
    (below : ∀ step ∈ call.flow.steps, StepBelow r level depth call step)
    (cost : stepsCost worst call.flow.steps = some n) (w : World) :
    Steps r n w (executeFlowWith r collection call w).2 := by
  have ran : Steps r n w.tick (after (runSteps r collection call call.steps
      (call.init (r.services.clock w.reads), w.tick))).2 :=
    Takes.steps (takes_runSteps collections below cost) (call.init (r.services.clock w.reads), w.tick)
  have flow : Steps r n w.tick (runFlow r collection call (r.services.clock w.reads) w.tick).2 := by
    unfold runFlow
    rcases ended : runSteps r collection call call.steps
        (call.init (r.services.clock w.reads), w.tick) with ⟨_, l, w'⟩ | ⟨error, l, w'⟩
    all_goals rw [ended] at ran
    · exact ran
    · have recorded : Steps r n w.tick (recordFailure r error w').2 :=
        (ran.trans (steps_recordFailure error w')).mono (Nat.le_of_eq (Nat.add_zero n))
      unfold failFlow
      dsimp only
      split
      · exact recorded
      · exact (recorded.trans (steps_idle (.tick _))).mono (Nat.le_of_eq (Nat.add_zero n))
  have started : Steps r n w (runFlow r collection call (r.services.clock w.reads) w.tick).2 :=
    ((steps_idle (.tick w)).trans flow).mono (Nat.le_of_eq (Nat.zero_add n))
  exact (started.trans (steps_idle (.tick _))).mono (Nat.le_of_eq (Nat.add_zero n))

end Flow

/-! ## Repeats and collections -/

section Repeat

variable {run : FlowCall → World → (FlowRun × List DecisionIssue) × World} {level : String → ℕ}
  {worst : String → Option ℕ} {depth : ℕ}

/-- A flow of the workflow that may run at a collection depth, with the levels below another depth. -/
structure Fits (r : WorkflowRunner) (level : String → ℕ) (depth collectionDepth : ℕ)
    (flow : FlowPlan) :
    Prop where
  known : flow ∈ r.plan.flows
  below : level flow.name ≤ depth
  room : collectionDepth + level flow.name ≤ MAX_COLLECTION_DEPTH

/-- An execution of a flow takes at most the cost of its steps. -/
def RunsTake (r : WorkflowRunner) (level : String → ℕ) (worst : String → Option ℕ) (depth : ℕ)
    (run : FlowCall → World → (FlowRun × List DecisionIssue) × World) : Prop :=
  ∀ call own, Fits r level depth call.collectionDepth call.flow →
    stepsCost worst call.flow.steps = some own → ∀ w, Steps r own w (run call w).2

/-- Deciding a condition takes no step. -/
theorem takes_holds (location : String) (condition : ConditionPlan) (context : Json) :
    Takes r 0 (holds r location condition context) fun _ => True :=
  (takes_lift _).free_bind fun met _ =>
      (takes_emit (calm_condition location met)).free_bind fun _ _ =>
    costs_pure trivial

/-- Resolving an input inside a flow takes no step. -/
theorem takes_flowInput {place : Boundary} (inside : ¬ OnRoute place) (name : String)
    (bindings : Bindings) (envelope : AcceptedEnvelope) :
    Takes r 0 (flowInput r place name bindings envelope) fun _ => True :=
  takes_locals.free_bind fun records _ =>
      (takes_emit (calm_boundary inside records)).free_bind fun _ _ =>
    (takes_lift _).free_bind fun _ _ => (takes_lift _).free_bind fun _ _ => costs_pure trivial

variable {flow : FlowPlan} {rep : RepeatPlan} {scope : RepeatScope}

/-- Deciding after a retry run takes no step. -/
theorem takes_afterRetry (issues : List DecisionIssue) (record : FlowRun)
    (retryIssues : List DecisionIssue) :
    Takes r 0 (afterRetry r rep scope issues record retryIssues) fun _ => True := by
  refine .ite (fun _ => costs_pure trivial) fun _ => .ite (fun _ => costs_pure trivial) fun _ => ?_
  split
  · exact costs_pure trivial
  · exact takes_locals.free_bind fun _ _ => (takes_holds _ _ _).free_bind fun met _ =>
      .ite (fun _ => costs_pure trivial) fun _ => costs_pure trivial

/-- Resolving the next input takes no step. -/
theorem takes_nextInputs : Takes r 0 (nextInputs r flow rep scope) fun _ => True := by
  refine takes_checkDeadline.free_bind fun _ _ => ?_
  split
  · exact takes_flowInput (inside_nextInput flow.name) _ _ _
  · exact takes_locals.free_bind fun records _ =>
      (takes_emit (calm_boundary (inside_nextInput flow.name) records)).free_bind fun _ _ =>
        (takes_lift _).free_bind fun _ _ => (takes_lift _).free_bind fun _ _ => costs_pure trivial

variable (measured : Measured r.plan level worst) (runs : RunsTake r level worst depth run)
  (fits : Fits r level depth scope.collectionDepth flow) (repeats : flow.repeatPlan = some rep)
include measured runs fits repeats

/-- Between two attempts the retry flow runs once. -/
theorem takes_runRetry (cost : retryCost worst flow = some n) (attempt : ℕ)
    (issues : List DecisionIssue) :
    Takes r n (runRetry r run flow rep scope attempt issues) fun _ => True := by
  unfold runRetry
  split
  case h_1 => exact costs_pure trivial
  case h_2 name retries =>
    obtain ⟨below, retry, known, single⟩ := measured.retries flow fits.known rep name repeats retries
    obtain rfl : retry.name = name := WorkflowPlan.flow?_name known
    have bound : worst retry.name = some n := by
      simp only [retryCost, repeats, Option.bind_some, retries] at cost
      exact cost
    -- The retry flow has no repeat of its own, so its worst steps are those of one execution.
    obtain ⟨own, _, steps, _, total⟩ := measured.bounds retry (WorkflowPlan.flow?_mem known)
    obtain rfl : own = n := by
      rw [bound, single] at total
      exact (Option.some.inj total).symm
    have nested : Fits r level depth scope.collectionDepth retry :=
      ⟨WorkflowPlan.flow?_mem known, below.trans fits.below,
        (Nat.add_le_add_left below _).trans fits.room⟩
    simp only [known]
    have input : Takes r 0 (caught (flowInput r (.retryInput flow.name) retry.name rep.retryFlowInput
        scope.envelope)) fun _ => True :=
      takes_caught (takes_flowInput (inside_retryInput flow.name) _ _ _)
    refine input.free_bind fun bound _ => ?_
    rcases bound with error | inputs
    · exact Costs.free_bind (takes_total fun w => steps_recordFailure error w) fun _ _ =>
        (takes_update _).free_bind fun _ _ => costs_pure trivial
    · refine (takes_emit (calm_started _ _)).free_bind fun _ _ => (takes_lift _).free_bind
        fun envelope _ => Costs.bind_free (takes_total fun w => ?_) fun _ _ =>
          (takes_update _).free_bind fun _ _ => takes_afterRetry _ _ _
      exact runs (retryCall scope retry envelope attempt) own nested steps w

/-- The repeat goes on only below its maximal number of attempts, and only there the retry flow runs. -/
theorem takes_repeatDecision (cost : retryCost worst flow = some n) (record : FlowRun) (attempt : ℕ)
    (issues : List DecisionIssue) :
    Takes r (if attempt < rep.maxAttempts then n else 0)
      (repeatDecision r run flow rep scope record attempt issues) fun decision =>
        ∀ issues inputs, decision = .again issues inputs → attempt < rep.maxAttempts := by
  refine .ite (fun _ => costs_pure fun _ _ => RepeatDecision.noConfusion) fun _ =>
    .ite (fun _ => costs_pure fun _ _ => RepeatDecision.noConfusion) fun _ =>
      takes_locals.free_bind fun _ _ => (takes_holds _ _ _).free_bind fun met _ =>
        .ite (fun _ => costs_pure fun _ _ => RepeatDecision.noConfusion) fun _ =>
          .ite (fun _ => costs_pure fun _ _ => RepeatDecision.noConfusion) fun more => ?_
  have more := Nat.lt_of_not_le more
  rw [if_pos more]
  refine (takes_runRetry measured runs fits repeats cost attempt issues).bind_free fun decision _ =>
    ?_
  rcases decision with _ | decision
  · refine (takes_caught takes_nextInputs).free_bind fun next _ => ?_
    rcases next with error | inputs
    · exact Costs.free_bind (takes_total fun w => steps_recordFailure error w) fun _ _ =>
        costs_pure fun _ _ _ => more
    · exact costs_pure fun _ _ _ => more
  · exact costs_pure fun _ _ _ => more

end Repeat

/-- The attempts that remain, with a retry run before each of them but the first. -/
def remainingCost (own retry remaining : ℕ) : ℕ := remaining * own + (remaining - 1) * retry

/-- The cost of one attempt more. -/
theorem remainingCost_succ (own retry remaining : ℕ) :
    own + ((if 0 < remaining then retry else 0) + remainingCost own retry remaining) =
      remainingCost own retry (remaining + 1) := by
  unfold remainingCost
  rcases remaining with _ | remaining
  · simp
  · rw [if_pos (Nat.succ_pos _), Nat.add_sub_cancel, Nat.add_sub_cancel]
    ring

section Collection

variable {run : FlowCall → World → (FlowRun × List DecisionIssue) × World} {level : String → ℕ}
  {worst : String → Option ℕ} {depth : ℕ}

/-- The items of a batch are callable flows of the step, at most as many as the batch has. -/
theorem takes_validateItems {flows seen : List String}
    (callable : ∀ name ∈ flows, isCallable r.plan name = true) (raw : List Json) :
    Takes r 0 (validateItems r flows seen raw) fun items =>
      items.length = raw.length ∧ ∀ item ∈ items, item.flow ∈ r.plan.flows ∧
      item.flow.name ∈ flows := by
  intro s
  have ran := validateItems_ran r flows seen raw s.2
  have same : validateItems r flows seen raw s = validateItems r flows seen raw ((), s.2) := rfl
  rw [same]
  cases ended : validateItems r flows seen raw ((), s.2) with
  | error error s' =>
    rw [ended] at ran
    refine ⟨?_, fun items s'' failed => nomatch failed⟩
    cases ran with
    | refused cause idle => exact steps_idle idle
    | misrouted allowed unfit idle =>
      obtain ⟨flow, known, routed⟩ := isCallable_spec (callable _ allowed)
      rw [unfit flow known] at routed
      cases routed
  | ok items s' =>
    rw [ended] at ran
    cases ran with
    | accepted each idle =>
      refine ⟨steps_idle idle, fun others s'' same => ?_⟩
      obtain ⟨rfl, -⟩ := EStateM.Result.ok.inj same
      refine ⟨each.length_eq.symm, fun item mem => ?_⟩
      obtain ⟨_, -, accepted⟩ := each.exists_of_mem_right mem
      exact ⟨WorkflowPlan.flow?_mem accepted.known, accepted.allowed⟩

variable (measured : Measured r.plan level worst) (runs : RunsTake r level worst depth run)
include measured runs

/-- The attempts of an item take their cost. -/
theorem takes_runItemAttempts {rep : RepeatPlan} {item : Item} {scope : RepeatScope} {own retry : ℕ}
    (fits : Fits r level depth scope.collectionDepth item.flow)
    (repeats : item.flow.repeatPlan = some rep) (steps : stepsCost worst item.flow.steps = some own)
    (cost : retryCost worst item.flow = some retry) (remaining : ℕ) (attempts : List FlowRun)
    (records : Records) (inputs : Object) (count : attempts.length + remaining = rep.maxAttempts)
    (open_ : attempts.length < rep.maxAttempts) :
    Takes r (remainingCost own retry remaining)
      (runItemAttempts r run rep item scope remaining attempts records inputs) fun _ => True := by
  induction remaining generalizing attempts records inputs with
  | zero => omega
  | succ remaining ih =>
    rw [← remainingCost_succ]
    refine (takes_emit (calm_started _ _)).free_bind fun _ _ => (takes_lift _).free_bind
      fun envelope _ => (takes_total fun w => ?_).bind fun ran _ => ?_
    · exact runs (itemCall item scope.collectionDepth envelope (attempts.length + 1)) own fits steps w
    have decides := takes_within (setAttempt item.flow.name ran.1 attempts records)
      (takes_repeatDecision measured runs fits repeats cost ran.1 (attempts.length + 1) ran.2)
    have more : (if attempts.length + 1 < rep.maxAttempts then retry else 0) ≤
        if 0 < remaining then retry else 0 := by
      split_ifs <;> omega
    refine (decides.le more).bind fun decision post => ?_
    rcases decision with ⟨_ | ⟨_, next⟩, later⟩
    · exact ((takes_emit (calm_single (fun _ => Event.noConfusion) (fun _ _ => Event.noConfusion)
        Event.noConfusion)).le (Nat.zero_le _)).bind_free fun _ _ => costs_pure trivial
    · have again := post _ _ rfl
      refine ih _ _ _ ?_ ?_
      all_goals
        rw [List.length_append, List.length_singleton]
        omega

/-- An item takes the worst case of its flow. -/
theorem takes_runItem {call : CollectionCall} {item : Item}
    (fits : Fits r level depth (call.collectionDepth + 1) item.flow)
    (cost : worst item.flow.name = some n) : Takes r n (runItem r run call item) fun _ => True := by
  obtain ⟨own, retry, steps, retries, total⟩ := measured.bounds item.flow fits.known
  obtain rfl := Option.some.inj (cost.symm.trans total)
  refine (takes_lift _).free_bind fun envelope _ => ?_
  split
  case h_1 rep repeats =>
    rw [repeats]
    exact takes_runItemAttempts measured runs fits repeats steps retries rep.maxAttempts [] [] _
      (Nat.zero_add _) (repeat_room rep)
  case h_2 single =>
    rw [single]
    refine (takes_emit (calm_started _ _)).free_bind fun _ _ =>
      Costs.bind_free (takes_total fun w => ?_) fun _ _ => costs_pure trivial
    exact runs (itemCall item (call.collectionDepth + 1) envelope 1) own fits steps w

/-- The items take at most the worst flow's cost each. -/
theorem takes_runItems {call : CollectionCall} {child : ℕ} (usage : Usage) (status : Status)
    {items : List Item} (fits : ∀ item ∈ items,
      Fits r level depth (call.collectionDepth + 1) item.flow)
    (cost : ∀ item ∈ items, ∃ n, worst item.flow.name = some n ∧ n ≤ child) :
    Takes r (items.length * child) (runItems r run call usage status items) fun _ => True := by
  induction items generalizing usage status with
  | nil => exact costs_pure trivial
  | cons item rest ih =>
    obtain ⟨n, bound, le⟩ := cost item List.mem_cons_self
    rw [List.length_cons, Nat.succ_mul, Nat.add_comm]
    have first := takes_runItem measured runs (fits item List.mem_cons_self) bound
    refine (first.le le).bind fun ran _ => .ite (fun _ => costs_pure trivial) fun _ => ?_
    exact (ih _ _ (fun other mem => fits other (List.mem_cons_of_mem _ mem))
      fun other mem => cost other (List.mem_cons_of_mem _ mem)).bind_free fun _ _ =>
        costs_pure trivial

/-- A collection takes at most the worst steps of its flows for each item. -/
theorem collectionsTake :
    CollectionsTake r level worst (depth + 1) (executeCollection r run) := by
  intro call child below bound
  refine takes_now.free_bind fun _ _ => .ite (fun deep => ?_) fun _ => ?_
  · obtain ⟨name, mem⟩ := List.exists_mem_of_ne_nil _ below.nonempty
    have room := below.room name mem
    exact absurd deep (by omega)
  split
  case h_1 raw batch =>
    refine .ite (fun _ => (takes_raise _).le (Nat.zero_le _)) fun short => ?_
    refine (takes_validateItems below.callable raw).free_bind fun items ⟨count, each⟩ => ?_
    have fits : ∀ item ∈ items, Fits r level depth (call.collectionDepth + 1) item.flow := by
      intro item mem
      obtain ⟨known, listed⟩ := each item mem
      have less := below.below _ listed
      have room := below.room _ listed
      exact ⟨known, by omega, by omega⟩
    have ran := takes_runItems measured runs {} .completed fits fun item mem =>
      costliest_spec bound (each item mem).2
    have le : items.length * child ≤ call.maxItems * child :=
      Nat.mul_le_mul_right child (by omega)
    exact (ran.le le).bind_free fun _ _ => (takes_lift _).free_bind fun _ _ =>
      takes_now.free_bind fun _ _ => costs_pure trivial
  case h_2 => exact (takes_raise _).le (Nat.zero_le _)

omit runs in
/-- What the collection steps of a flow call nests below it. -/
theorem Fits.steps {call : FlowCall} (fits : Fits r level depth call.collectionDepth call.flow)
    {step : StepPlan} (mem : step ∈ call.flow.steps) : StepBelow r level depth call step := by
  intro items flows maxItems kind inputs
  have called : ∀ name ∈ flows, name ∈ collectionTargets call.flow := by
    intro name listed
    exact List.mem_flatMap.mpr ⟨step, mem, by rw [kind]; exact listed⟩
  refine ⟨step.calls items flows maxItems kind, ?_, ?_, ?_⟩ <;> intro name listed
  all_goals obtain ⟨callable, less⟩ := measured.calls call.flow fits.known name (called name listed)
  · exact callable
  · exact Nat.lt_of_lt_of_le less fits.below
  · exact Nat.lt_of_lt_of_le (Nat.add_lt_add_left less _) fits.room

omit runs in
/-- Flows take their cost at every depth of nested collections. -/
theorem runsTake_to (depth : ℕ) : RunsTake r level worst depth (executeFlowTo r depth) := by
  induction depth with
  | zero =>
    intro call own fits steps w
    have collections : CollectionsTake r level worst 0 fun _ => now r >>= fun _ =>
        refuse .collectionDepth := by
      intro call child below bound
      obtain ⟨name, mem⟩ := List.exists_mem_of_ne_nil _ below.nonempty
      exact absurd (below.below name mem) (Nat.not_lt_zero _)
    exact steps_executeFlowWith collections (fun step mem => fits.steps measured mem) steps w
  | succ depth ih =>
    intro call own fits steps w
    exact steps_executeFlowWith (collectionsTake measured ih)
        (fun step mem => fits.steps measured mem)
      steps w

omit runs in
/-- An execution of a flow takes at most the cost of its steps. -/
theorem steps_executeFlow {call : FlowCall} {own : ℕ}
    (fits : Fits r level MAX_COLLECTION_DEPTH call.collectionDepth call.flow)
    (steps : stepsCost worst call.flow.steps = some own) (w : World) :
    Steps r own w (executeFlow r call w).2 := by
  have room := fits.room
  exact runsTake_to measured _ call own ⟨fits.known, by omega, room⟩ steps w

end Collection

end Foliqant.Compiler
