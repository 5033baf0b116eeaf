import Foliqant.Core.Engine

/-!
# The workflow runner

One run executes the flows of a workflow in the order their routes select. A flow executes its steps
in order, an operation step through the executor and a collection step by running a callable flow for
each item. Repeated flows run several attempts with an optional retry flow in between.

`executeFlow` never fails: it turns every exception into a failed record. The functions below it are
given the flows of the next collection depth as a parameter.
-/

namespace Foliqant.Core

open JsonText Exec

/-! ## Contexts -/

/-- The data of attempts, numbered. -/
def attemptData (index : ℕ) : List FlowRun → List Json
  | [] => []
  | attempt :: rest =>
      .obj (presentMembers [("attempt", some (.int index)),
        ("status", some (.str attempt.status.value)), ("result", attempt.result),
        ("error", attempt.error.map ServiceError.asJson)]) :: attemptData (index + 1) rest

/-- What bindings see of a step. -/
def StepRecord.data (record : StepRecord) : Json :=
  .obj (presentMembers [("status", some (.str record.status.value)), ("result", record.result),
    ("kind", if record.collection then some (.str "flow_collection") else none),
    ("selection", record.selection.map Selection.asJson), ("partial_result", record.partialResult),
    ("error", record.error.map ServiceError.asJson)])

/-- What bindings see of a flow. -/
def FlowRecord.data (record : FlowRecord) : Json :=
  .obj (presentMembers [("status", some (.str record.status.value)), ("result", record.result),
    ("error", record.error.map ServiceError.asJson),
    ("attempts", if record.attempts = [] then none
      else some (.arr (attemptData 1 record.attempts)))])

/-- What the bindings of a step can read. -/
def bindingContext (envelope : AcceptedEnvelope) (records : List (String × StepRecord)) : Json :=
  .obj [("payload", envelope.payload), ("metadata", .obj envelope.metadata),
    ("steps", .obj (records.map fun (name, record) => (name, record.data)))]

/-- What the bindings of a boundary can read. -/
def workflowContext (envelope : AcceptedEnvelope) (records : Records) : Json :=
  .obj [("payload", envelope.payload), ("metadata", .obj envelope.metadata),
    ("flows", .obj (records.map fun (name, record) => (name, record.data)))]

/-- The context of a routed start. -/
def startContext (envelope : AcceptedEnvelope) : Json :=
  .obj [("payload", envelope.payload), ("metadata", .obj envelope.metadata)]

/-! ## Outcomes of operations -/

/-- Whitespace that stripping a string removes. -/
def isWhitespace (c : Char) : Bool :=
  (9 ≤ c.toNat && c.toNat ≤ 13) || (28 ≤ c.toNat && c.toNat ≤ 32) ||
    [0x85, 0xA0, 0x1680, 0x2028, 0x2029, 0x202F, 0x205F, 0x3000].contains c.toNat ||
    (0x2000 ≤ c.toNat && c.toNat ≤ 0x200A)

/-- A selection is one that its step may make. -/
def selectionAccepted (outcome : StepOutcome) (kind : StepKind) (selected : Selection) : Bool :=
  (match kind with
    | .decision _ | .handler _ => true
    | _ => false) &&
    !selected.category.id.toList.all isWhitespace && selected.category.id.length ≤ 128 &&
    selected.category.description != some "" &&
    outcome.needsReview == (selected.origin == .fallback)

/-- Reject malformed review facts. -/
def validateOutcome (outcome : StepOutcome) (kind : StepKind) : Bool :=
  decide outcome.unresolvedIssues.Nodup &&
    (outcome.unresolvedIssues.isEmpty || outcome.needsReview) &&
    match outcome.selection with
    | none => true
    | some selected => selectionAccepted outcome kind selected

/-- The accepted outcome of an executor call with its frozen result. -/
def acceptOutcome (executed : Executed) (kind : StepKind) : Except Exn (StepOutcome × Json) :=
  match executed with
  | .returned outcome =>
      if !validateOutcome outcome kind then fail .invalidOutput
      else match outcome.result with
        | some value =>
            if depth value ≤ MAX_JSON_DEPTH then .ok (outcome, value) else fail .invalidOutput
        | none => fail .invalidOutput
  | .raised error => .error error
  | .malformed => fail .invalidOutput

/-- A step that has not run. -/
def skippedStep (step : StepPlan) : StepRecord :=
  { status := .skipped, collection := step.kind.isCollection }

/-- A flow that has not run. -/
def skipped (flow : FlowPlan) : FlowRecord :=
  { status := .skipped, steps := flow.steps.map fun step => (step.name, skippedStep step) }

/-- The bindings with some replaced; a replacement for an unknown name is ignored. -/
def overridden (base overrides : Bindings) : Bindings :=
  base.map fun (name, binding) => (name, ((Dict.ofList overrides).lookup name).getD binding)

/-! ## One flow -/

/-- One execution of a flow, or of one of its steps. -/
structure FlowCall where
  flow : FlowPlan
  envelope : AcceptedEnvelope
  stepId : Option String := none
  collectionDepth : ℕ := 0
  attempt : ℕ := 1
  role : FlowRole := .routed
  collectionItem : Option String := none

/-- Data of a flow execution. -/
structure FlowLocals where
  records : List (String × StepRecord)
  usage : Usage := {}
  status : Status := .completed
  error : Option Failure := none
  result : Json
  active : Option String := none
  stepStarted : ℚ
  stepUsage : Usage := {}
  issues : List DecisionIssue := []

/-- Begin a step. -/
def FlowLocals.start (name : String) (started : ℚ) (l : FlowLocals) : FlowLocals :=
  { l with active := some name, stepStarted := started, stepUsage := {} }

/-- Count the usage of the active step. -/
def FlowLocals.spend (l : FlowLocals) (usage : Usage) : FlowLocals :=
  { l with usage := l.usage.plus rounded usage, stepUsage := usage }

/-- Record the accepted outcome of an operation step. -/
def FlowLocals.complete (stepId : Option String) (name : String) (outcome : StepOutcome)
    (value : Json) (ended : ℚ) (l : FlowLocals) : FlowLocals :=
  { l with
    records := Dict.set name
      { status := if outcome.needsReview then .needsReview else .completed
        result := some value
        elapsedSeconds := some (ended - l.stepStarted)
        usage := some l.stepUsage
        selection := outcome.selection } l.records
    active := none
    result := if stepId.isSome then value else l.result
    status := if outcome.needsReview then .needsReview else l.status
    issues := if outcome.needsReview then outcome.unresolvedIssues else l.issues }

/-- Record a collection step. -/
def FlowLocals.collect (stepId : Option String) (name : String) (record : StepRecord)
    (l : FlowLocals) : FlowLocals :=
  { l.spend (record.usage.getD {}) with
    records := Dict.set name record l.records
    active := none
    status := if record.status = .failed ∨ record.status = .needsReview then record.status
      else l.status
    error := if record.status = .failed then record.error else l.error
    result := if record.status ≠ .failed ∧ stepId.isSome then record.result.getD .null
      else l.result }

/-- Record the failure of the active step. -/
def FlowLocals.failStep (name : String) (failure : Failure) (ended : ℚ) (l : FlowLocals) :
    FlowLocals :=
  { l with
    records := Dict.set name
      { status := .failed
        error := some failure
        elapsedSeconds := some (ended - l.stepStarted)
        usage := some l.stepUsage
        collection := ((l.records.lookup name).map StepRecord.collection).getD false }
      l.records }

/-- Whether the loop over the steps goes on. -/
inductive Control where
  | next | stop
  deriving DecidableEq

/-- The invocation of a collection step. -/
structure CollectionCall where
  flows : List String
  maxItems : ℕ
  inputs : Object
  envelope : AcceptedEnvelope
  collectionDepth : ℕ

section Flow

variable (r : WorkflowRunner) (collection : CollectionCall → Exec Unit StepRecord)
  (call : FlowCall) (step : StepPlan)

/-- The value of the guard, unless the step has none or runs alone. -/
def evaluateGuard (l : FlowLocals) : Except Exn (Option Bool) :=
  match step.guard, call.stepId with
  | some condition, none =>
      (evaluateCondition r.services.tables (bindingContext call.envelope l.records) condition).map
        some
  | _, _ => .ok none

/-- Take one step of the run's limit. -/
def reserveStep : Exec FlowLocals Unit := fun s =>
  if s.2.consumed ≥ r.limits.maxSteps then
    .error (.service ErrorCode.stepLimitReached.error) (s.1, s.2.append [.limitReached])
  else .ok () (s.1, { s.2 with consumed := s.2.consumed + 1 })

/-- The time at which a step starts. -/
def startStep : Exec FlowLocals Unit := do
  let started ← now r
  update (FlowLocals.start step.name started)

/-- The bound inputs of a step; a step that runs alone gets the payload. -/
def stepInputs (l : FlowLocals) : Except Exn Object :=
  match call.stepId, call.envelope.payload with
  | some _, .obj members => .ok members
  | some _, _ => fail .invalidInput
  | none, _ => resolveBindings step.bindings (bindingContext call.envelope l.records)

/-- What an executor is told about its step. -/
def stepContext : StepContext where
  workflow := r.plan.name
  revision := r.plan.revision
  stepId := step.name
  metadata := call.envelope.metadata
  deadline := r.deadline
  modelTimeout := r.limits.modelTimeout
  toolTimeout := r.limits.toolTimeout
  budget := { modelLimit := r.limits.modelRequestsPerStep, toolLimit := r.limits.toolCallsPerStep }
  flowId := call.flow.name
  attempt := call.attempt
  collectionItem := call.collectionItem
  flowRole := call.role

/-- Call the executor; its usage counts however it ends. -/
def callExecutor (inputs : Object) : Exec FlowLocals Executed := fun s =>
  let executed := r.services.execute s.2.calls step inputs (stepContext r call step)
  let usage := executed.2.snapshot rounded
  .ok executed.1 (s.1.spend usage,
    { s.2 with calls := s.2.calls + 1 }.append [.operation call.flow.name step.name usage])

/-- A raised timeout reports which bound it hit. -/
def settle : Executed → Exec FlowLocals Unit
  | .raised .timeout => raise .runTimeout
  | .raised (.service error) => do
      if error.code ∈ timeoutCodes ∧ !error.retryable then
        raise (timeoutCode (← now r) r.deadline)
      else lift (.error (.service error))
  | .raised .other => lift (.error .other)
  | _ => pure ()

/-- Run a step by its executor. -/
def executeOperation (inputs : Object) : Exec FlowLocals Control := do
  let executed ← callExecutor r call step inputs
  settle r executed
  checkDeadline r
  let (outcome, value) ← lift (acceptOutcome executed step.kind)
  let ended ← now r
  update (FlowLocals.complete call.stepId step.name outcome value ended)
  return if outcome.needsReview then .stop else .next

/-- Run a step that is a collection. -/
def executeCollectionStep (flows : List String) (maxItems : ℕ) (inputs : Object) :
    Exec FlowLocals Control := do
  let record ← onWorld (collection ⟨flows, maxItems, inputs, call.envelope, call.collectionDepth⟩)
  update (FlowLocals.collect call.stepId step.name record)
  return if record.status = .failed ∨ record.status = .needsReview then .stop else .next

/-- Run a step of any kind. -/
def executeKind (inputs : Object) : Exec FlowLocals Control :=
  match step.kind with
  | .flowCollection _ flows maxItems =>
      executeCollectionStep collection call step flows maxItems inputs
  | .decision _ | .llm _ | .mcp _ | .handler _ => executeOperation r call step inputs

/-- One round of the loop over the steps. -/
def executeStep : Exec FlowLocals Control := do
  checkDeadline r
  let guarded ← lift (evaluateGuard r call step (← locals))
  if guarded = some false then
    emit [.conditionEvaluated ("steps." ++ step.name ++ ".when") false,
      .stepSkipped call.flow.name step.name]
    return .next
  else
    reserveStep r
    startStep r step
    emit (.stepStarted call.flow.name step.name ::
      if guarded = some true then [.conditionEvaluated ("steps." ++ step.name ++ ".when") true]
      else [])
    executeKind r collection call step (← lift (stepInputs call step (← locals)))

/-- Run the steps until one stops the flow. -/
def executeSteps : List StepPlan → Exec FlowLocals Unit
  | [] => pure ()
  | step :: rest => do
      match ← executeStep r collection call step with
      | .next => executeSteps rest
      | .stop => pure ()

/-- The result after the steps: the output of a whole flow that did not fail. -/
def projectOutput (l : FlowLocals) : Except Exn Json :=
  match call.stepId, call.flow.output with
  | none, some output =>
      if l.status = .failed then .ok l.result
      else resolveBinding (bindingContext call.envelope l.records) output
  | _, _ => .ok l.result

/-- The steps with the output. -/
def runSteps (steps : List StepPlan) : Exec FlowLocals Unit := do
  executeSteps r collection call steps
  let result ← lift (projectOutput call (← locals))
  update fun l => { l with result := result }

/-- Turn an exception into the failure of the flow and of its active step. -/
def failFlow (error : Exn) (l : FlowLocals) (w : World) : FlowLocals × World :=
  let (failure, w) := recordFailure r error w
  let l := { l with status := .failed, error := some failure }
  match l.active with
  | none => (l, w)
  | some active => (l.failStep active failure (r.services.clock w.reads), w.tick)

/-- The steps of a call. -/
def FlowCall.steps : List StepPlan :=
  match call.stepId with
  | none => call.flow.steps
  | some id => call.flow.steps.filter fun step => step.name = id

/-- The locals of a flow before its first step. -/
def FlowCall.init (started : ℚ) : FlowLocals where
  records := Dict.ofList (call.steps.map fun step => (step.name, skippedStep step))
  result := call.envelope.payload
  stepStarted := started

/-- The record of a flow that has ended. -/
def FlowLocals.run (l : FlowLocals) (elapsedSeconds : ℚ) : FlowRun where
  status := l.status
  steps := l.records
  result := if l.status = .failed then none else some l.result
  usage := some l.usage
  elapsedSeconds := some elapsedSeconds
  error := l.error

/-- The data of a flow after its steps; an exception is caught. -/
def runFlow (started : ℚ) (w : World) : FlowLocals × World :=
  match runSteps r collection call call.steps (call.init started, w) with
  | .ok _ (l, w) => (l, w)
  | .error error (l, w) => failFlow r error l w

/-- Execute a flow, with the collections of the next depth given. -/
def executeFlowWith (w : World) : (FlowRun × List DecisionIssue) × World :=
  let started := r.services.clock w.reads
  let (l, w) := runFlow r collection call started w.tick
  ((l.run (r.services.clock w.reads - started), l.issues), w.tick)

end Flow

/-! ## Repeats -/

/-- What a routed flow or a collection item gives its repeat. -/
structure RepeatScope where
  envelope : AcceptedEnvelope
  /-- The collection item, with its input. -/
  item : Option (String × Object) := none
  collectionDepth : ℕ := 0

/-- What is decided after an attempt. -/
inductive RepeatDecision where
  | stopped (stop : RepeatStop) (issues : List DecisionIssue) (status : Option Status)
      (failure : Option Failure)
  /-- The next attempt with its input. -/
  | again (issues : List DecisionIssue) (inputs : Object)

section Repeat

variable (r : WorkflowRunner) (run : FlowCall → World → (FlowRun × List DecisionIssue) × World)

/-- Evaluate a condition over the records and report its result. -/
def holds (location : String) (condition : ConditionPlan) (context : Json) : Exec Records Bool := do
  let result ← lift (evaluateCondition r.services.tables context condition)
  emit [.conditionEvaluated location result]
  return result

/-- Resolve boundary bindings and validate the input of the flow. -/
def flowInput (place : Boundary) (name : String) (bindings : Bindings) (envelope : AcceptedEnvelope) :
    Exec Records Object := do
  let records ← locals
  emit [.boundary place records]
  let inputs ← lift (resolveBindings bindings (workflowContext envelope records))
  lift (r.services.validateFlowInput name (.obj inputs))
  return inputs

variable (flow : FlowPlan) (rep : RepeatPlan) (scope : RepeatScope)

/-- The earlier runs of the retry flow. -/
def retryRuns (name : String) (records : Records) : List FlowRun :=
  ((records.lookup name).map FlowRecord.attempts).getD []

/-- Record a retry run. -/
def setRetry (name : String) (retry : FlowRun) (records : Records) : Records :=
  Dict.set name { toFlowRun := retry, attempts := retryRuns name records ++ [retry] } records

/-- The execution of the retry flow after an attempt. -/
def retryCall (retry : FlowPlan) (envelope : AcceptedEnvelope) (attempt : ℕ) : FlowCall :=
  { flow := retry, envelope := envelope, collectionDepth := scope.collectionDepth,
    attempt := attempt, role := .retry, collectionItem := scope.item.map Prod.fst }

/-- The record of a retry flow whose input failed. -/
def failedRetry (retry : FlowPlan) (failure : Failure) : FlowRun :=
  { status := .failed, steps := (skipped retry).steps, usage := some {},
    elapsedSeconds := some 0, error := some failure }

/-- Whether a retry flow that ran stops the repeat. -/
def afterRetry (issues : List DecisionIssue) (record : FlowRun) (retryIssues : List DecisionIssue) :
    Exec Records (Option RepeatDecision) := do
  if record.status = .failed then return some (.stopped .failure issues none record.error)
  else if record.status = .needsReview then
    return some (.stopped .review retryIssues (some .needsReview) none)
  else
    match rep.continueWhen with
    | none => return none
    | some condition =>
        if ← holds r "repeat.retry.continue_when" condition
            (workflowContext scope.envelope (← locals)) then return none
        else return some (.stopped .continueWhen issues none none)

/-- Run the retry flow between two attempts; a decision stops the repeat. -/
def runRetry (attempt : ℕ) (issues : List DecisionIssue) : Exec Records (Option RepeatDecision) := do
  match rep.retryFlow with
  | none => return none
  | some name =>
      match r.plan.flow? name with
      | none => lift (.error .other)
      | some retry =>
          match ← caught (flowInput r (.retryInput flow.name) retry.name rep.retryFlowInput
              scope.envelope) with
          | .error error =>
              let failure ← total (recordFailure r error)
              update (setRetry retry.name (failedRetry retry failure))
              return some (.stopped .failure issues none (some failure))
          | .ok inputs =>
              emit [.flowStarted retry.name .retry]
              let envelope ← lift (scope.envelope.withPayload (.obj inputs))
              let (record, retryIssues) ← total (run (retryCall scope retry envelope attempt))
              update (setRetry retry.name record)
              afterRetry r rep scope issues record retryIssues

/-- The input of the next attempt. -/
def nextInputs : Exec Records Object := do
  checkDeadline r
  match scope.item with
  | none =>
      flowInput r (.nextInput flow.name) flow.name (overridden flow.input rep.retryInput)
        scope.envelope
  | some (_, payload) =>
      let records ← locals
      emit [.boundary (.nextInput flow.name) records]
      let overrides ← lift (resolveBindings rep.retryInput (workflowContext scope.envelope records))
      let inputs := overrides.foldl (fun inputs entry => Dict.set entry.1 entry.2 inputs) payload
      lift (r.services.validateFlowInput flow.name (.obj inputs))
      return inputs

/-- Decide after one attempt. A failure of the retry flow or of the next input stops the repeat; the
repeated flow keeps its last attempt. -/
def repeatDecision (record : FlowRun) (attempt : ℕ) (issues : List DecisionIssue) :
    Exec Records RepeatDecision := do
  if record.status = .failed then return .stopped .failure issues none none
  else if record.status = .needsReview then return .stopped .review issues none none
  else if ← holds r "repeat.until" rep.untilCondition
      (workflowContext scope.envelope (← locals)) then
    return .stopped .untilMet issues none none
  else if attempt ≥ rep.maxAttempts then return .stopped .exhausted issues none none
  else
    match ← runRetry r run flow rep scope attempt issues with
    | some decision => return decision
    | none =>
        match ← caught (nextInputs r flow rep scope) with
        | .error error =>
            return .stopped .failure issues none (some (← total (recordFailure r error)))
        | .ok inputs => return .again issues inputs

/-- Record an attempt of a repeated flow, after the earlier ones. -/
def setAttempt (name : String) (record : FlowRun) (attempts : List FlowRun) (records : Records) :
    Records :=
  Dict.set name { toFlowRun := record, attempts := attempts ++ [record] } records

/-- The record of a repeated flow after a decision. -/
def decided (record : FlowRun) (attempts : List FlowRun) : RepeatDecision → FlowRecord
  | .again _ _ => { toFlowRun := record, attempts := attempts }
  | .stopped stop _ status _ =>
      { toFlowRun := { record with status := status.getD record.status }
        attempts := attempts, stoppedBy := some stop }

end Repeat

/-! ## Collections -/

/-- A validated collection item. -/
structure Item where
  id : String
  flow : FlowPlan
  payload : Object

/-- The record of an item, of its retry flow, and a failure that stops the collection. -/
structure ItemRun where
  record : FlowRecord
  retry : Option FlowRecord := none
  failure : Option Failure := none

/-- `[a-z][a-z0-9]*(?:_[a-z0-9]+)*`. -/
def isItemId (text : String) : Bool :=
  match text.toList.splitOn '_' with
  | [] => false
  | first :: rest =>
      (match first with
        | [] => false
        | c :: cs => isLower c && cs.all fun c => isLower c || isDigit c) &&
        rest.all fun part => !part.isEmpty && part.all fun c => isLower c || isDigit c

section Collection

variable (r : WorkflowRunner) (run : FlowCall → World → (FlowRun × List DecisionIssue) × World)

/-- The members of an item, when it is well formed. -/
def itemParts (item : Json) : Option (String × String × Object) :=
  match item with
  | .obj members =>
      match members.lookup "id", members.lookup "flow", members.lookup "input" with
      | some (.str id), some (.str flow), some (.obj payload) =>
          if members.length = 3 then some (id, flow, payload) else none
      | _, _, _ => none
  | _ => none

/-- Validate the items of a batch. -/
def validateItems (flows : List String) : List String → List Json → Exec Unit (List Item)
  | _, [] => return []
  | seen, item :: rest => do
      checkDeadline r
      match itemParts item with
      | none => raise .invalidInput
      | some (id, name, payload) =>
          if !isItemId id ∨ id ∈ seen ∨ name ∉ flows then raise .invalidInput
          else
            match r.plan.flow? name with
            | none => refuse .itemFlow
            | some flow =>
                if !flow.callable then refuse .itemFlow
                else
                  lift (r.services.validateFlowInput name (.obj payload))
                  let others ← validateItems flows (id :: seen) rest
                  return ⟨id, flow, payload⟩ :: others

/-- The execution of an attempt of a collection item. -/
def itemCall (item : Item) (depth : ℕ) (envelope : AcceptedEnvelope) (attempt : ℕ) : FlowCall :=
  { flow := item.flow, envelope := envelope, collectionDepth := depth, attempt := attempt,
    role := .callable, collectionItem := some item.id }

/-- The remaining attempts of a repeated collection item. -/
def runItemAttempts (rep : RepeatPlan) (item : Item) (scope : RepeatScope) :
    ℕ → List FlowRun → Records → Object → Exec Unit ItemRun
  | 0, _, _, _ => refuse .attemptsExhausted
  | remaining + 1, attempts, records, inputs => do
      emit [.flowStarted item.flow.name .callable]
      let envelope ← lift (scope.envelope.withPayload (.obj inputs))
      let attempt := attempts.length + 1
      let (record, issues) ← total (run (itemCall item scope.collectionDepth envelope attempt))
      let (decision, records) ← within (setAttempt item.flow.name record attempts records)
        (repeatDecision r run item.flow rep scope record attempt issues)
      let aggregated := decided record (attempts ++ [record]) decision
      let records := Dict.set item.flow.name aggregated records
      match decision with
      | .again _ inputs =>
          runItemAttempts rep item scope remaining (attempts ++ [record]) records inputs
      | .stopped stop _ _ failure =>
          emit [.repeatStopped stop]
          return { record := aggregated
                   retry := rep.retryFlow.bind fun name => records.lookup name
                   failure := failure }

/-- What an item gives its repeat. -/
def itemScope (call : CollectionCall) (item : Item) (envelope : AcceptedEnvelope) : RepeatScope where
  envelope := envelope
  item := some (item.id, item.payload)
  collectionDepth := call.collectionDepth + 1

/-- Run one collection item. -/
def runItem (call : CollectionCall) (item : Item) : Exec Unit ItemRun := do
  let envelope ← lift (call.envelope.withPayload (.obj item.payload))
  match item.flow.repeatPlan with
  | some rep =>
      runItemAttempts r run rep item (itemScope call item envelope) rep.maxAttempts [] []
        item.payload
  | none =>
      emit [.flowStarted item.flow.name .callable]
      let (record, _) ← total (run (itemCall item (call.collectionDepth + 1) envelope 1))
      return { record := { toFlowRun := record } }

/-- The usage of an item with its retry flow. -/
def ItemRun.addUsage (usage : Usage) (item : ItemRun) : Usage :=
  let usage := ((item.record.totalUsage).map (usage.plus rounded)).getD usage
  ((item.retry.bind FlowRecord.totalUsage).map (usage.plus rounded)).getD usage

/-- How the items of a collection ended. -/
structure ItemsRun where
  items : List ItemRun
  usage : Usage
  status : Status
  failure : Option Failure

/-- Run the remaining items in order; a failed one stops the collection. -/
def runItems (call : CollectionCall) (usage : Usage) (status : Status) :
    List Item → Exec Unit ItemsRun
  | [] => return ⟨[], usage, status, none⟩
  | item :: rest => do
      let ran ← runItem r run call item
      let usage := ran.addUsage usage
      if ran.record.status = .failed ∨ ran.failure.isSome then
        return ⟨ran :: rest.map fun item => { record := skipped item.flow }, usage, .failed,
          ran.failure <|> ran.record.error⟩
      else
        let status := if ran.record.status = .needsReview then .needsReview else status
        let others ← runItems call usage status rest
        return { others with items := ran :: others.items }

/-- The entry of an item in the ledger. -/
def ledgerEntry (item : Item) (ran : ItemRun) : Except Exn Json := do
  let members ← flowRecordValue ran.record
  let retry ← match ran.retry with
    | some record => do pure [("retry", .obj (← flowRecordValue record))]
    | none => pure ([] : Object)
  return .obj ([("id", .str item.id), ("flow", .str item.flow.name)] ++ members ++ retry)

/-- The entries of the items that ran. -/
def ledgerEntries : List Item → List ItemRun → Except Exn (List Json)
  | item :: items, ran :: runs => do
      let entry ← ledgerEntry item ran
      let others ← ledgerEntries items runs
      return entry :: others
  | _, _ => .ok []

/-- The record of a collection step with its ledger. -/
def ItemsRun.record (ran : ItemsRun) (ledger : Json) (elapsedSeconds : ℚ) : StepRecord where
  status := ran.status
  result := if ran.status = .failed then none else some ledger
  error := ran.failure
  usage := some ran.usage
  elapsedSeconds := some elapsedSeconds
  partialResult := if ran.status = .failed then some ledger else none
  collection := true

/-- The only input of a collection step is its list of items. -/
def batchItems : Object → Option (List Json)
  | [("items", .arr raw)] => some raw
  | _ => none

/-- Validate the whole batch, then run its items. -/
def executeCollection (call : CollectionCall) : Exec Unit StepRecord := do
  let started ← now r
  if call.collectionDepth ≥ MAX_COLLECTION_DEPTH then refuse .collectionDepth
  else
    match batchItems call.inputs with
    | some raw =>
        if raw.length > call.maxItems then raise .invalidInput
        else
          let items ← validateItems r call.flows [] raw
          let ran ← runItems r run call {} .completed items
          let entries ← lift (ledgerEntries items ran.items)
          let ended ← now r
          return ran.record (.obj [("items", .arr entries)]) (ended - started)
    | none => raise .invalidInput

end Collection

/-- Execute a flow whose collections may nest `depth` levels deep. -/
def executeFlowTo (r : WorkflowRunner) : ℕ → FlowCall → World → (FlowRun × List DecisionIssue) × World
  | 0 => executeFlowWith r fun _ => do let _ ← now r; refuse .collectionDepth
  | depth + 1 => executeFlowWith r (executeCollection r (executeFlowTo r depth))

/-- Execute a flow. A collection at the depth limit fails before it runs a flow, so the depth that
is left decides which flows can run below. -/
def executeFlow (r : WorkflowRunner) (call : FlowCall) :
    World → (FlowRun × List DecisionIssue) × World :=
  executeFlowTo r (MAX_COLLECTION_DEPTH - call.collectionDepth) call

/-! ## Runs -/

/-- Data of a run at the workflow level. -/
structure RunLocals where
  records : Records
  active : Option String := none
  transitions : List TransitionRecord := []
  start : Option StartRecord := none

/-- A flow begins; an exception is recorded as its failure. -/
def RunLocals.activate (name : String) (l : RunLocals) : RunLocals := { l with active := some name }

/-- The active flow ended with its record. -/
def RunLocals.finish (name : String) (record : FlowRecord) (l : RunLocals) : RunLocals :=
  { l with records := Dict.set name record l.records, active := none }

/-- A boundary was taken. -/
def RunLocals.take (transition : TransitionRecord) (l : RunLocals) : RunLocals :=
  { l with transitions := l.transitions ++ [transition] }

/-- Work on the records of the run. -/
def Exec.onRecords {α : Type} (x : Exec Records α) : Exec RunLocals α := fun s =>
  match x (s.1.records, s.2) with
  | .ok a (records, w) => .ok a ({ s.1 with records := records }, w)
  | .error e (records, w) => .error e ({ s.1 with records := records }, w)

/-- The last record of a routed flow with its boundary, or the failure that stops the run. -/
inductive Routed where
  | failed (error : Option Failure)
  | boundary (target : TransitionTargetPlan) (transition : TransitionRecord)

/-- What a run is asked for: the whole workflow, one flow, or one step of a flow. -/
inductive RunTarget where
  | workflow
  | flow (name : String)
  | step (flow step : String)

/-- How the routing of a run ended. -/
structure Ending where
  status : Status
  error : Option Failure
  payload : Json

section Run

variable (r : WorkflowRunner) (envelope : AcceptedEnvelope)

/-- The first entry whose condition holds, from an index on. -/
def selectFrom (location : String) (context : Json) :
    ℕ → List RouteEntryPlan → Exec RunLocals (TransitionTargetPlan × ℕ)
  | _, [] => refuse .missingTarget
  | index, entry :: rest => do
      match entry.condition with
      | none => return (entry.target, index)
      | some condition =>
          if ← onRecords (holds r (location ++ "." ++ toString index) condition context) then
            return (entry.target, index)
          else selectFrom location context (index + 1) rest

/-- Choose an entry of a route. -/
def select (route : ConditionalRoutingPlan) (location : String) (context : Json) :
    Exec RunLocals (TransitionTargetPlan × ℕ) :=
  selectFrom r location context 0 route.entries

/-- Select the first flow. -/
def selectStart : Exec RunLocals StartRecord := do
  match r.plan.start with
  | .flow name =>
      emit [.routeSelected .direct { flow := some name } none none]
      return { flow := name }
  | .route route =>
      let (target, index) ← select r route "start.route" (startContext envelope)
      match target.flow with
      | none => refuse .missingTarget
      | some name =>
          emit [.routeSelected .route target (some index) none]
          return { flow := name, routeIndex := some index }

/-- A selected target with the form, index and case that selected it. -/
structure Selected where
  target : TransitionTargetPlan
  kind : RouteKind
  index : Option ℕ := none
  case : Option String := none

/-- Choose where a flow that needs review goes. -/
def selectReview (route : Option ReviewRoutePlan) (issues : List DecisionIssue) (context : Json) :
    Exec RunLocals Selected := do
  match route with
  | none => return ⟨{ outcome := some .needsReview }, .review, none, none⟩
  | some (.direct target) => return ⟨target, .review, none, none⟩
  | some (.issues route) =>
      let (target, issue) := route.select issues
      return ⟨target, .review, none, issue.map DecisionIssue.value⟩
  | some (.route route) =>
      let (target, index) ← select r route "on_unresolved.route" context
      return ⟨target, .review, some index, none⟩

/-- The target of a case value; no value and an unknown one take the default. -/
def MatchRoutingPlan.selectCase (route : MatchRoutingPlan) : Json → Except Exn Selected
  | .null => .ok ⟨route.default, .cases, none, none⟩
  | .str value =>
      match (Dict.ofList route.cases).lookup value with
      | some target => .ok ⟨target, .cases, none, some value⟩
      | none => .ok ⟨route.default, .cases, none, none⟩
  | _ => fail .invalidInput

/-- Choose where a completed flow goes. -/
def selectTransition (transition : Option TransitionPlan) (context : Json) :
    Exec RunLocals Selected := do
  match transition with
  | none => refuse .missingTarget
  | some (.direct target) => return ⟨target, .direct, none, none⟩
  | some (.cases route) => lift (do route.selectCase (← resolveBinding context route.binding))
  | some (.route route) =>
      let (target, index) ← select r route "transition.route" context
      return ⟨target, .route, some index, none⟩

/-- The record of a boundary that was selected after a flow. -/
def Selected.transition (source : String) (status : Status) (selected : Selected) :
    TransitionRecord where
  source := source
  reason := if status = .needsReview then .needsReview else .completed
  flow := selected.target.flow
  outcome := selected.target.outcome
  routeKind := selected.kind
  routeIndex := selected.index
  routeCase := selected.case

/-- The boundary of the status a flow finished with. -/
def selectBoundary (flow : FlowPlan) (status : Status) (issues : List DecisionIssue)
    (context : Json) : Exec RunLocals Selected :=
  if status = .needsReview then selectReview r flow.onUnresolved issues context
  else selectTransition r flow.transition context

/-- Select the boundary of a flow that finished. -/
def selectTarget (flow : FlowPlan) (record : FlowRecord) (issues : List DecisionIssue) :
    Exec RunLocals Routed := do
  let records := (← locals).records
  emit [.boundary (.routes flow.name) records]
  let selected ← selectBoundary r flow record.status issues (workflowContext envelope records)
  if record.status = .needsReview ∧ selected.target.outcome = some .completed then
    refuse .reviewCompletes
  else if selected.target.flow.isNone = selected.target.outcome.isNone then
    refuse .missingTarget
  else
    emit [.routeSelected selected.kind selected.target selected.index selected.case]
    return .boundary selected.target (selected.transition flow.name record.status)

/-- The execution of an attempt of a routed flow. -/
def routedCall (flow : FlowPlan) (received : AcceptedEnvelope) (attempt : ℕ) : FlowCall :=
  { flow := flow, envelope := received, attempt := attempt }

/-- The remaining attempts of a repeated routed flow. -/
def runRoutedAttempts (flow : FlowPlan) (rep : RepeatPlan) :
    ℕ → List FlowRun → Object → Exec RunLocals Routed
  | 0, _, _ => refuse .attemptsExhausted
  | remaining + 1, attempts, inputs => do
      update (RunLocals.activate flow.name)
      let received ← lift (envelope.withPayload (.obj inputs))
      emit [.flowStarted flow.name .routed]
      let attempt := attempts.length + 1
      let (record, issues) ← total (executeFlow r (routedCall flow received attempt))
      update fun l => { l with records := setAttempt flow.name record attempts l.records }
      let decision ← onRecords
        (repeatDecision r (executeFlow r) flow rep { envelope := envelope } record attempt issues)
      let aggregated := decided record (attempts ++ [record]) decision
      match decision with
      | .again _ inputs =>
          update fun l => { l with records := Dict.set flow.name aggregated l.records }
          runRoutedAttempts flow rep remaining (attempts ++ [record]) inputs
      | .stopped stop issues _ failure =>
          emit [.repeatStopped stop]
          update (RunLocals.finish flow.name aggregated)
          if aggregated.status = .failed ∨ failure.isSome then
            return .failed (failure <|> aggregated.error)
          else selectTarget r envelope flow aggregated issues

/-- Run every attempt of a routed flow, then select its boundary. -/
def runRouted (flow : FlowPlan) : Exec RunLocals Routed := do
  checkDeadline r
  update (RunLocals.activate flow.name)
  let inputs ← onRecords (flowInput r (.input flow.name) flow.name flow.input envelope)
  match flow.repeatPlan with
  | some rep => runRoutedAttempts r envelope flow rep rep.maxAttempts [] inputs
  | none =>
      let received ← lift (envelope.withPayload (.obj inputs))
      emit [.flowStarted flow.name .routed]
      let (record, issues) ← total (executeFlow r (routedCall flow received 1))
      update (RunLocals.finish flow.name { toFlowRun := record })
      if record.status = .failed then return .failed record.error
      else selectTarget r envelope flow { toFlowRun := record } issues

/-- How a terminal target ends the routing. -/
def TransitionTargetPlan.ending (target : TransitionTargetPlan) (envelope : AcceptedEnvelope) :
    Ending where
  status := if target.outcome = some .needsReview then .needsReview else .completed
  error := none
  payload := envelope.payload

/-- Run the flows of a workflow from one flow on; `visited` are those before it. -/
def runFlows : ℕ → List String → String → Exec RunLocals Ending
  | 0, _, _ => do
      checkDeadline r
      refuse .revisited
  | remaining + 1, visited, current => do
      checkDeadline r
      if current ∈ visited then refuse .revisited
      else
        match r.plan.flow? current with
        | none => refuse .unknownFlow
        | some flow =>
            if flow.callable then refuse .callableRouted
            else
              match ← runRouted r envelope flow with
              | .failed error => return ⟨.failed, error, envelope.payload⟩
              | .boundary target transition =>
                  update (RunLocals.take transition)
                  match target.flow with
                  | some next => runFlows remaining (current :: visited) next
                  | none => return target.ending envelope

/-- The execution of a flow, or of one of its steps, on its own. -/
def aloneCall (flow : FlowPlan) (envelope : AcceptedEnvelope) (stepId : Option String) : FlowCall :=
  { flow := flow, envelope := envelope, stepId := stepId,
    role := if flow.callable then .callable else .routed }

/-- How a flow that ran alone ends the run. -/
def FlowRun.ending (record : FlowRun) (envelope : AcceptedEnvelope) : Ending :=
  if record.status = .failed then ⟨.failed, record.error, envelope.payload⟩
  else ⟨if record.status = .needsReview then .needsReview else .completed, none,
    record.result.getD .null⟩

/-- Run one attempt of one flow, or one of its steps, without routes or repeat. -/
def runAlone (name : String) (stepId : Option String) : Exec RunLocals Ending := do
  checkDeadline r
  match r.plan.flow? name with
  | none => refuse .unknownFlow
  | some flow =>
      update (RunLocals.activate name)
      emit [.flowStarted name (aloneCall flow envelope stepId).role]
      let (record, _) ← total (executeFlow r (aloneCall flow envelope stepId))
      update (RunLocals.finish name { toFlowRun := record })
      return record.ending envelope

/-- The output of a workflow that did not fail. -/
def projectWorkflow (ending : Ending) : Exec RunLocals Ending := do
  if ending.status = .failed then return ending
  else
    match r.plan.output with
    | none => return ending
    | some output =>
        let records := (← locals).records
        emit [.boundary .output records]
        let payload ← lift (resolveBinding (workflowContext envelope records) output)
        return { ending with payload := payload }

/-- Run the flows from the selected start on, then project the output. -/
def runWorkflow : Exec RunLocals Ending := do
  let start ← selectStart r envelope
  update fun l => { l with start := some start }
  let ending ← runFlows r envelope r.plan.flows.length [] start.flow
  projectWorkflow r envelope ending

/-- A run up to the final deadline check. -/
def runBody : RunTarget → Exec RunLocals Ending
  | .workflow => runWorkflow r envelope
  | .flow name => runAlone r envelope name none
  | .step flow step => runAlone r envelope flow (some step)

/-- The part of a run whose exceptions become its failure. -/
def runTarget (target : RunTarget) : Exec RunLocals Ending := do
  let ending ← runBody r envelope target
  checkDeadline r
  return ending

/-- The record of the flow that an exception interrupted. -/
def interrupted (failure : Failure) (l : RunLocals) : RunLocals :=
  match l.active with
  | none => l
  | some name =>
      let attempts := ((l.records.lookup name).map FlowRecord.attempts).getD []
      let steps := ((r.plan.flow? name).map fun flow => (skipped flow).steps).getD []
      { l with
        records := Dict.set name
          { status := .failed, steps := steps, error := some failure, usage := some {},
            elapsedSeconds := some 0, attempts := attempts,
            stoppedBy := if attempts = [] then none else some .failure } l.records }

/-- Retry flows of routed flows have records of the workflow. -/
def retryFlows : List String :=
  r.plan.flows.filterMap fun flow =>
    if flow.callable then none else flow.repeatPlan.bind RepeatPlan.retryFlow

/-- The flows with a record in the result. -/
def recorded (flow : FlowPlan) : RunTarget → Bool
  | .workflow => !flow.callable || flow.name ∈ retryFlows r
  | .flow name | .step name _ => flow.name = name

/-- The records of a run before its first flow. -/
def initialRecords (target : RunTarget) : Records :=
  Dict.ofList ((r.plan.flows.filter (recorded r · target)).map fun flow => (flow.name, skipped flow))

/-- The usage of all records. -/
def totalUsage (records : Records) : Usage :=
  records.foldl (fun usage entry => ((entry.2.totalUsage).map (usage.plus rounded)).getD usage) {}

/-- The result of a run that has ended. -/
def runResult (l : RunLocals) (ending : Ending) : RunResult where
  workflow := r.plan.name
  revision := r.plan.revision
  status := ending.status
  payload := ending.payload
  metadata := envelope.metadata
  flows := l.records
  usage := totalUsage l.records
  error := ending.error
  transitions := l.transitions
  start := l.start

/-- Run a target; the second part is the world after the run, with its log. -/
def run (target : RunTarget) : RunResult × World :=
  match runTarget r envelope target ({ records := initialRecords r target }, {}) with
  | .ok ending (l, w) => (runResult r envelope l ending, w)
  | .error error (l, w) =>
      let (failure, w) := recordFailure r error w
      (runResult r envelope (interrupted r failure l) ⟨.failed, some failure, envelope.payload⟩, w)

end Run

end Foliqant.Core
