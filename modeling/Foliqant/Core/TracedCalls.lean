import Foliqant.Core.RunBehavior
import Foliqant.Core.StartedFlows

/-!
# Calls along edges

A flow calls other flows at two places: a collection step runs one for each item, and a repeated flow
runs its retry flow between two attempts. `runTraced` is the runner with a check at both places. A call
of an item needs an edge of the flow with the step, a retry needs an edge of the repeated flow; a call
without one is answered by something else. Where the edges cover the calls of a plan, the checked
runner cannot be told from the runner, whatever the other answers are.
-/

namespace Foliqant.Core

open Exec Emission

/-- What executes a flow. -/
abbrev Engine := FlowCall → World → (FlowRun × List DecisionIssue) × World

/-- Which flow calls which, as a collection item or as a retry flow. -/
abbrev CallEdges := FlowRole → String → String → Bool

/-- The flow whose retry flow has just started. -/
def World.retryOwner (w : World) : Option String :=
  match w.log.dropLast.getLast? with
  | some (.boundary (.retryInput owner) _) => some owner
  | _ => none

/-! ## The checked runner -/

section Traced

variable (edges : CallEdges) (other : Engine)

/-- Whether a call that is made for a flow has an edge: from that flow for a collection item, from the
repeated flow for a retry. -/
def follows (owner : String) (call : FlowCall) (w : World) : Bool :=
  match call.role with
  | .callable => edges .callable owner call.flow.name
  | .retry => w.retryOwner.any fun repeated => edges .retry repeated call.flow.name
  | .routed => false

/-- The calls made for a flow; those without an edge are answered by something else. -/
def traced (execute : Engine) (owner : String) : Engine := fun call w =>
  if follows edges owner call w then execute call w else other call w

variable (r : WorkflowRunner)

/-- `executeFlowTo` with checked calls. -/
def executeFlowToTraced : ℕ → Engine
  | 0 => executeFlowWith r fun _ => do let _ ← now r; refuse .collectionDepth
  | depth + 1 => fun call => executeFlowWith r
      (executeCollection r (traced edges other (executeFlowToTraced depth) call.flow.name)) call

/-- `executeFlow` with checked calls. -/
def executeFlowTraced : Engine := fun call =>
  executeFlowToTraced edges other r (MAX_COLLECTION_DEPTH - call.collectionDepth) call

variable (envelope : AcceptedEnvelope)

/-- `runRoutedAttempts` with checked calls. -/
def runRoutedAttemptsTraced (flow : FlowPlan) (rep : RepeatPlan) :
    ℕ → List FlowRun → Object → Exec RunLocals Routed
  | 0, _, _ => refuse .attemptsExhausted
  | remaining + 1, attempts, inputs => do
      update (RunLocals.activate flow.name)
      let received ← lift (envelope.withPayload (.obj inputs))
      emit [.flowStarted flow.name .routed]
      let attempt := attempts.length + 1
      let (record, issues) ← total
        (executeFlowTraced edges other r (routedCall flow received attempt))
      update fun l => { l with records := setAttempt flow.name record attempts l.records }
      let decision ← onRecords
        (repeatDecision r (traced edges other (executeFlowTraced edges other r) flow.name) flow rep
          { envelope := envelope } record attempt issues)
      let aggregated := decided record (attempts ++ [record]) decision
      match decision with
      | .again _ inputs =>
          update fun l => { l with records := Dict.set flow.name aggregated l.records }
          runRoutedAttemptsTraced flow rep remaining (attempts ++ [record]) inputs
      | .stopped stop issues _ failure =>
          emit [.repeatStopped stop]
          update (RunLocals.finish flow.name aggregated)
          if aggregated.status = .failed ∨ failure.isSome then
            return .failed (failure <|> aggregated.error)
          else selectTarget r envelope flow aggregated issues

/-- `runRouted` with checked calls. -/
def runRoutedTraced (flow : FlowPlan) : Exec RunLocals Routed := do
  checkDeadline r
  update (RunLocals.activate flow.name)
  let inputs ← onRecords (flowInput r (.input flow.name) flow.name flow.input envelope)
  match flow.repeatPlan with
  | some rep => runRoutedAttemptsTraced edges other r envelope flow rep rep.maxAttempts [] inputs
  | none =>
      let received ← lift (envelope.withPayload (.obj inputs))
      emit [.flowStarted flow.name .routed]
      let (record, issues) ← total (executeFlowTraced edges other r (routedCall flow received 1))
      update (RunLocals.finish flow.name { toFlowRun := record })
      if record.status = .failed then return .failed record.error
      else selectTarget r envelope flow { toFlowRun := record } issues

/-- `runFlows` with checked calls. -/
def runFlowsTraced : ℕ → List String → String → Exec RunLocals Ending
  | 0, _, _ => do
      checkDeadline r
      refuse .revisited
  | remaining + 1, visited, current => do
      checkDeadline r
      if current ∈ visited then refuse .revisited
      else
        match r.plan.flow? current with
        | none => refuse .unknownFlow
        | some flow =>
            if flow.callable then refuse .callableRouted
            else
              match ← runRoutedTraced edges other r envelope flow with
              | .failed error => return ⟨.failed, error, envelope.payload⟩
              | .boundary target transition =>
                  update (RunLocals.take transition)
                  match target.flow with
                  | some next => runFlowsTraced remaining (current :: visited) next
                  | none => return target.ending envelope

/-- `runAlone` with checked calls. -/
def runAloneTraced (name : String) (stepId : Option String) : Exec RunLocals Ending := do
  checkDeadline r
  match r.plan.flow? name with
  | none => refuse .unknownFlow
  | some flow =>
      update (RunLocals.activate name)
      emit [.flowStarted name (aloneCall flow envelope stepId).role]
      let (record, _) ← total (executeFlowTraced edges other r (aloneCall flow envelope stepId))
      update (RunLocals.finish name { toFlowRun := record })
      return record.ending envelope

/-- `runBody` with checked calls. -/
def runBodyTraced : RunTarget → Exec RunLocals Ending
  | .workflow => do
      let start ← selectStart r envelope
      update fun l => { l with start := some start }
      let ending ← runFlowsTraced edges other r envelope r.plan.flows.length [] start.flow
      projectWorkflow r envelope ending
  | .flow name => runAloneTraced edges other r envelope name none
  | .step flow step => runAloneTraced edges other r envelope flow (some step)

/-- `runTarget` with checked calls. -/
def runTargetTraced (target : RunTarget) : Exec RunLocals Ending := do
  let ending ← runBodyTraced edges other r envelope target
  checkDeadline r
  return ending

/-- `run` with checked calls. -/
def runTraced (target : RunTarget) : RunResult × World :=
  match runTargetTraced edges other r envelope target
    ({ records := initialRecords r target }, {}) with
  | .ok ending (l, w) => (runResult r envelope l ending, w)
  | .error error (l, w) =>
      let (failure, w) := recordFailure r error w
      (runResult r envelope (interrupted r failure l) ⟨.failed, some failure, envelope.payload⟩, w)

end Traced

/-! ## Equal answers -/

section Congruence

variable {σ τ α β : Type}

/-- The rest has to agree only where the first part succeeds. -/
theorem bind_congr_ok {x : Exec σ α} {f g : α → Exec σ β} {s : σ × World}
    (same : ∀ a s', x s = .ok a s' → f a s' = g a s') : (x >>= f) s = (x >>= g) s := by
  rcases ran : x s with ⟨a, s'⟩ | ⟨error, s'⟩
  · rw [bind_ok ran, bind_ok ran]
    exact same a s' ran
  · rw [bind_error ran, bind_error ran]

/-- What follows equal computations is equal. -/
theorem bind_congr_left {x y : Exec σ α} {f : α → Exec σ β} {s : σ × World} (same : x s = y s) :
    (x >>= f) s = (y >>= f) s := by
  rcases ran : x s with ⟨a, s'⟩ | ⟨error, s'⟩
  · rw [bind_ok ran, bind_ok (same ▸ ran)]
  · rw [bind_error ran, bind_error (same ▸ ran)]

end Congruence

section Flow

variable {r : WorkflowRunner} {collection collection' : CollectionCall → Exec Unit StepRecord}
  {call : FlowCall}

/-- Two answers to the collections of a step. -/
def SameCollections (collection collection' : CollectionCall → Exec Unit StepRecord)
    (step : StepPlan) : Prop :=
  ∀ items flows maxItems, step.kind = .flowCollection items flows maxItems →
    ∀ batch : CollectionCall, batch.flows = flows → collection batch = collection' batch

/-- A step of any kind. -/
theorem executeKind_congr {step : StepPlan} (same : SameCollections collection collection' step)
    (inputs : Object) :
    executeKind r collection call step inputs = executeKind r collection' call step inputs := by
  unfold executeKind
  cases kind : step.kind with
  | flowCollection items flows maxItems =>
    simp only
    unfold executeCollectionStep
    rw [same items flows maxItems kind _ rfl]
  | decision sources => rfl
  | llm input => rfl
  | mcp arguments => rfl
  | handler input => rfl

/-- One step. -/
theorem executeStep_congr {step : StepPlan} (same : SameCollections collection collection' step) :
    executeStep r collection call step = executeStep r collection' call step := by
  have kinds : executeKind r collection call step = executeKind r collection' call step :=
    funext (executeKind_congr same)
  unfold executeStep
  rw [kinds]

/-- The steps of a flow. -/
theorem executeSteps_congr {steps : List StepPlan}
    (same : ∀ step ∈ steps, SameCollections collection collection' step) :
    executeSteps r collection call steps = executeSteps r collection' call steps := by
  induction steps with
  | nil => rfl
  | cons step rest ih =>
    obtain ⟨first, others⟩ := List.forall_mem_cons.mp same
    unfold executeSteps
    rw [executeStep_congr first, ih others]

/-- The execution of a flow depends on the collections of its own steps only. -/
theorem executeFlowWith_congr (same : ∀ step ∈ call.flow.steps,
    SameCollections collection collection' step) :
    executeFlowWith r collection call = executeFlowWith r collection' call := by
  have steps : runSteps r collection call call.steps = runSteps r collection' call call.steps := by
    unfold runSteps
    rw [executeSteps_congr fun step mem => same step (steps_of_call mem)]
  funext w
  unfold executeFlowWith runFlow
  rw [steps]

end Flow

/-! ## Covered calls -/

/-- The edges cover every call that the flows of a plan can make. -/
structure Covers (plan : WorkflowPlan) (edges : CallEdges) : Prop where
  items : ∀ flow ∈ plan.flows, ∀ step ∈ flow.steps, ∀ items flows maxItems,
    step.kind = .flowCollection items flows maxItems →
      ∀ name ∈ flows, edges .callable flow.name name = true
  retries : ∀ flow ∈ plan.flows, ∀ rep, flow.repeatPlan = some rep → ∀ name,
    rep.retryFlow = some name → edges .retry flow.name name = true

section Calls

variable {r : WorkflowRunner} {edges : CallEdges} {owner : String} {run run' : Engine}

/-- Two engines that answer the calls along an edge alike. -/
def Agree (plan : WorkflowPlan) (edges : CallEdges) (owner : String) (run run' : Engine) : Prop :=
  ∀ call w, call.flow ∈ plan.flows → follows edges owner call w = true → run call w = run' call w

/-- The log names the repeated flow when its retry flow starts. -/
theorem retryOwner_started (w : World) (owner name : String) (records : Records) :
    ((w.append [.boundary (.retryInput owner) records]).append
      [.flowStarted name .retry]).retryOwner =
      some owner := by
  unfold World.retryOwner World.append
  simp

/-- The input of a flow is bound over the records, which the log keeps. -/
theorem flowInput_log {place : Boundary} {name : String} {bindings : Bindings}
    {envelope : AcceptedEnvelope} {records records' : Records} {w w' : World} {inputs : Object}
    (ran : flowInput r place name bindings envelope (records, w) = .ok inputs (records', w')) :
    records' = records ∧ w' = w.append [.boundary place records] := by
  rw [flowInput_apply] at ran
  unfold lift at ran
  split at ran
  · obtain ⟨-, same⟩ := EStateM.Result.ok.inj ran
    obtain ⟨rfl, rfl⟩ := Prod.mk.inj same
    exact ⟨rfl, rfl⟩
  · cases ran

/-- A part that never fails, answered alike. -/
theorem total_bind_congr {σ α β : Type} {x y : World → α × World} {f : α → Exec σ β} {s : σ × World}
    (same : x s.2 = y s.2) : (total x >>= f) s = (total y >>= f) s :=
  bind_congr_left (by unfold total; rw [same])

/-- A caught success is the success. -/
theorem caught_ok {σ α : Type} {x : Exec σ α} {s s' : σ × World} {a : α}
    (ran : caught x s = .ok (.ok a) s') : x s = .ok a s' := by
  unfold caught at ran
  rcases result : x s with ⟨b, t⟩ | ⟨error, t⟩ <;> rw [result] at ran
  · obtain ⟨same, rfl⟩ := EStateM.Result.ok.inj ran
    rw [Except.ok.inj same]
  · cases (EStateM.Result.ok.inj ran).1

/-- A pure computation keeps the state. -/
theorem lift_state {σ α : Type} {x : Except Exn α} {s s' : σ × World} {a : α}
    (ran : lift x s = .ok a s') : s' = s := by
  unfold lift at ran
  split at ran
  · exact (EStateM.Result.ok.inj ran).2.symm
  · cases ran

/-- A retry run. -/
theorem runRetry_congr (agree : Agree r.plan edges owner run run') {flow : FlowPlan}
    {rep : RepeatPlan} (covered : ∀ name, rep.retryFlow = some name →
      edges .retry flow.name name = true)
    (scope : RepeatScope) (attempt : ℕ) (issues : List DecisionIssue) :
    runRetry r run flow rep scope attempt issues = runRetry r run' flow rep scope attempt issues := by
  unfold runRetry
  cases retries : rep.retryFlow with
  | none => rfl
  | some name =>
    cases known : r.plan.flow? name with
    | none => simp only [known]
    | some retry =>
      simp only [known]
      funext s
      refine bind_congr_ok fun bound s₁ bound_ => ?_
      cases bound with
      | error error => rfl
      | ok inputs =>
        obtain ⟨-, world⟩ := flowInput_log (caught_ok bound_)
        simp only [emit_bind]
        refine bind_congr_ok fun received s₂ lifted => total_bind_congr ?_
        obtain rfl := lift_state lifted
        refine agree _ _ (WorkflowPlan.flow?_mem known) ?_
        have edge : edges .retry flow.name retry.name = true :=
          WorkflowPlan.flow?_name known ▸ covered name retries
        show (World.retryOwner _).any _ = true
        rw [world, retryOwner_started]
        exact edge

/-- What is decided after an attempt. -/
theorem repeatDecision_congr (agree : Agree r.plan edges owner run run') {flow : FlowPlan}
    {rep : RepeatPlan} (covered : ∀ name, rep.retryFlow = some name →
      edges .retry flow.name name = true)
    (scope : RepeatScope) (record : FlowRun) (attempt : ℕ) (issues : List DecisionIssue) :
    repeatDecision r run flow rep scope record attempt issues =
      repeatDecision r run' flow rep scope record attempt issues := by
  unfold repeatDecision
  rw [runRetry_congr agree covered]

variable {call : CollectionCall} {item : Item}

/-- The attempts of one item. -/
theorem runItemAttempts_congr (agree : Agree r.plan edges owner run run') {rep : RepeatPlan}
    (known : item.flow ∈ r.plan.flows) (edge : edges .callable owner item.flow.name = true)
    (covered : ∀ name, rep.retryFlow = some name → edges .retry item.flow.name name = true)
    (scope : RepeatScope) (remaining : ℕ) (attempts : List FlowRun) (records : Records)
    (inputs : Object) :
    runItemAttempts r run rep item scope remaining attempts records inputs =
      runItemAttempts r run' rep item scope remaining attempts records inputs := by
  induction remaining generalizing attempts records inputs with
  | zero => rfl
  | succ remaining ih =>
    have calls (received : AcceptedEnvelope) (attempt : ℕ) :
        run (itemCall item scope.collectionDepth received attempt) =
          run' (itemCall item scope.collectionDepth received attempt) :=
      funext fun w => agree _ w known edge
    unfold runItemAttempts
    simp only [calls, repeatDecision_congr agree covered, ih]

/-- One item. -/
theorem runItem_congr (agree : Agree r.plan edges owner run run') (covers : Covers r.plan edges)
    (known : item.flow ∈ r.plan.flows) (edge : edges .callable owner item.flow.name = true) :
    runItem r run call item = runItem r run' call item := by
  have calls (received : AcceptedEnvelope) (attempt : ℕ) :
      run (itemCall item (call.collectionDepth + 1) received attempt) =
        run' (itemCall item (call.collectionDepth + 1) received attempt) :=
    funext fun w => agree _ w known edge
  unfold runItem
  cases repeats : item.flow.repeatPlan with
  | none => simp only [calls]
  | some rep =>
    simp only [runItemAttempts_congr agree known edge (covers.retries item.flow known rep repeats)]

/-- The items of a collection. -/
theorem runItems_congr (agree : Agree r.plan edges owner run run') (covers : Covers r.plan edges)
    {items : List Item} (usage : Usage) (status : Status)
    (known : ∀ item ∈ items, item.flow ∈ r.plan.flows ∧ edges .callable owner item.flow.name = true) :
    runItems r run call usage status items = runItems r run' call usage status items := by
  induction items generalizing usage status with
  | nil => rfl
  | cons item rest ih =>
    obtain ⟨first, others⟩ := List.forall_mem_cons.mp known
    unfold runItems
    simp only [runItem_congr agree covers first.1 first.2, fun usage status => ih usage status others]

/-- The accepted items of a batch run flows that the step calls. -/
theorem validateItems_ok {flows seen : List String} {raw : List Json} {items : List Item}
    {s s' : Unit × World} (ran : validateItems r flows seen raw s = .ok items s') :
    ∀ item ∈ items, item.flow ∈ r.plan.flows ∧ item.flow.name ∈ flows := by
  have launches : Launches (fun _ => True) (fun _ => True) (Free Unit) True
      (validateItems r flows seen raw) fun items =>
        ∀ item ∈ items, item.flow ∈ r.plan.flows ∧ item.flow.name ∈ flows :=
    launches_validateItems flows seen raw
  obtain ⟨events, -, spec⟩ := launches s
  exact (spec trivial trivial fun _ _ => trivial).2.2 items s' ran

/-- A batch calls the flows of its step, along edges of the flow with the step. -/
theorem executeCollection_congr (agree : Agree r.plan edges owner run run')
    (covers : Covers r.plan edges) (edge : ∀ name ∈ call.flows, edges .callable owner name = true) :
    executeCollection r run call = executeCollection r run' call := by
  unfold executeCollection
  cases batchItems call.inputs with
  | none => rfl
  | some raw =>
    funext s
    refine bind_congr_ok fun started s₁ _ => ?_
    split
    · rfl
    · dsimp only
      split
      · rfl
      · refine bind_congr_ok fun items s₂ validated => ?_
        have known := validateItems_ok validated
        rw [runItems_congr agree covers _ _ fun item mem =>
          ⟨(known item mem).1, edge _ (known item mem).2⟩]

end Calls

/-! ## The checked runner is the runner -/

section Runs

variable {r : WorkflowRunner} {edges : CallEdges}

/-- Traced flows run as flows do, at every depth of nested collections. -/
theorem executeFlowToTraced_eq (covers : Covers r.plan edges) (other : Engine) (depth : ℕ)
    {call : FlowCall} (known : call.flow ∈ r.plan.flows) :
    executeFlowToTraced edges other r depth call = executeFlowTo r depth call := by
  induction depth generalizing call with
  | zero => rfl
  | succ depth ih =>
    have agree : Agree r.plan edges call.flow.name
        (traced edges other (executeFlowToTraced edges other r depth) call.flow.name)
        (executeFlowTo r depth) := by
      intro callee w mem along
      unfold traced
      rw [if_pos along, ih mem]
    refine executeFlowWith_congr fun step mem items flows maxItems kind batch same => ?_
    exact executeCollection_congr agree covers
      (same ▸ covers.items call.flow known step mem items flows maxItems kind)

/-- A traced flow runs as the flow does. -/
theorem executeFlowTraced_eq (covers : Covers r.plan edges) (other : Engine) {call : FlowCall}
    (known : call.flow ∈ r.plan.flows) :
    executeFlowTraced edges other r call = executeFlow r call :=
  executeFlowToTraced_eq covers other _ known

/-- The calls of a flow of the plan are answered by the runner. -/
theorem agree_traced (covers : Covers r.plan edges) (other : Engine) (owner : String) :
    Agree r.plan edges owner (traced edges other (executeFlowTraced edges other r) owner)
      (executeFlow r) := by
  intro callee w mem along
  unfold traced
  rw [if_pos along, executeFlowTraced_eq covers other mem]

variable {envelope : AcceptedEnvelope}

/-- The traced attempts of a routed flow. -/
theorem runRoutedAttemptsTraced_eq (covers : Covers r.plan edges) (other : Engine) {flow : FlowPlan}
    (known : flow ∈ r.plan.flows) {rep : RepeatPlan} (repeats : flow.repeatPlan = some rep)
    (remaining : ℕ) (attempts : List FlowRun) (inputs : Object) :
    runRoutedAttemptsTraced edges other r envelope flow rep remaining attempts inputs =
      runRoutedAttempts r envelope flow rep remaining attempts inputs := by
  induction remaining generalizing attempts inputs with
  | zero => rfl
  | succ remaining ih =>
    have calls (received : AcceptedEnvelope) (attempt : ℕ) :
        executeFlowTraced edges other r (routedCall flow received attempt) =
          executeFlow r (routedCall flow received attempt) :=
      executeFlowTraced_eq covers other known
    have decisions := fun scope record attempt issues =>
      repeatDecision_congr (agree_traced covers other flow.name)
        (covers.retries flow known rep repeats) scope record attempt issues
    conv_lhs =>
      unfold runRoutedAttemptsTraced
      simp only [calls, decisions, ih]
    rfl

/-- A traced routed flow. -/
theorem runRoutedTraced_eq (covers : Covers r.plan edges) (other : Engine) {flow : FlowPlan}
    (known : flow ∈ r.plan.flows) :
    runRoutedTraced edges other r envelope flow = runRouted r envelope flow := by
  have calls (received : AcceptedEnvelope) :
      executeFlowTraced edges other r (routedCall flow received 1) =
        executeFlow r (routedCall flow received 1) :=
    executeFlowTraced_eq covers other known
  unfold runRoutedTraced runRouted
  cases repeats : flow.repeatPlan with
  | none => simp only [calls]
  | some rep => simp only [runRoutedAttemptsTraced_eq covers other known repeats]

/-- The traced routing from a flow on. -/
theorem runFlowsTraced_eq (covers : Covers r.plan edges) (other : Engine) (remaining : ℕ)
    (visited : List String) (current : String) :
    runFlowsTraced edges other r envelope remaining visited current =
      runFlows r envelope remaining visited current := by
  induction remaining generalizing visited current with
  | zero => rfl
  | succ remaining ih =>
    unfold runFlowsTraced runFlows
    cases known : r.plan.flow? current with
    | none => rfl
    | some flow =>
      have routed : runRoutedTraced edges other r envelope flow = runRouted r envelope flow :=
        runRoutedTraced_eq covers other (WorkflowPlan.flow?_mem known)
      have next : runFlowsTraced edges other r envelope remaining = runFlows r envelope remaining :=
        funext fun visited => funext (ih visited)
      dsimp only
      exact routed ▸ next ▸ rfl

/-- The traced run of one flow. -/
theorem runAloneTraced_eq (covers : Covers r.plan edges) (other : Engine) (name : String)
    (stepId : Option String) :
    runAloneTraced edges other r envelope name stepId = runAlone r envelope name stepId := by
  unfold runAloneTraced runAlone
  cases known : r.plan.flow? name with
  | none => rfl
  | some flow =>
    have execute : executeFlowTraced edges other r (aloneCall flow envelope stepId) =
        executeFlow r (aloneCall flow envelope stepId) :=
      executeFlowTraced_eq covers other (WorkflowPlan.flow?_mem known)
    simp only [execute]

/-- Where the edges cover the calls of the plan, no check ever answers instead of a flow. -/
theorem runTraced_eq (covers : Covers r.plan edges) (other : Engine) (target : RunTarget) :
    runTraced edges other r envelope target = run r envelope target := by
  have body : runBodyTraced edges other r envelope target = runBody r envelope target := by
    cases target with
    | workflow =>
      unfold runBodyTraced runBody runWorkflow
      simp only [runFlowsTraced_eq covers other]
    | flow name => exact runAloneTraced_eq covers other name none
    | step flow step => exact runAloneTraced_eq covers other flow (some step)
  have ended : runTargetTraced edges other r envelope target = runTarget r envelope target := by
    unfold runTargetTraced runTarget
    rw [body]
  cases result : runTarget r envelope target ({ records := initialRecords r target }, {}) with
  | ok ending s => simp only [runTraced, run, ended, result]
  | error error s => simp only [runTraced, run, ended, result]

end Runs

end Foliqant.Core
