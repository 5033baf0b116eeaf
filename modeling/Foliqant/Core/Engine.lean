import Foliqant.Core.Conditions
import Foliqant.Core.Execution

/-!
# What the engine runs on

The world a run shares across its flows (steps consumed, clock reads, executor calls and the log of
what happened), the services it calls, and computations that can fail while their local data and the
world survive the failure.
-/

namespace Foliqant.Core

open JsonText Compiler

/-! ## Envelopes -/

/-- Immutable data of one flow invocation; both parts have a bounded depth. -/
structure AcceptedEnvelope where
  payload : Json
  metadata : Object
  payload_depth : depth payload ≤ MAX_EXECUTION_JSON_DEPTH
  metadata_depth : depth (.obj metadata) ≤ MAX_JSON_DEPTH

/-- The envelope with another payload, which generated ledgers may have made too deep. -/
def AcceptedEnvelope.withPayload (envelope : AcceptedEnvelope) (payload : Json) :
    Except Exn AcceptedEnvelope :=
  if h : depth payload ≤ MAX_EXECUTION_JSON_DEPTH then
    .ok ⟨payload, envelope.metadata, h, envelope.metadata_depth⟩
  else fail .invalidInput

/-! ## The log -/

/-- How a flow was invoked. -/
inductive FlowRole where
  | routed | callable | retry
  deriving DecidableEq

/-- The records of a run by the names of their flows. -/
abbrev Records := List (String × FlowRecord)

/-- Where bindings and routes read the records of a workflow or of a collection item. -/
inductive Boundary where
  /-- The input of a routed flow. -/
  | input (flow : String)
  /-- The routes of a flow that finished. -/
  | routes (flow : String)
  /-- The input of the retry flow of a repeated flow. -/
  | retryInput (flow : String)
  /-- The input of the next attempt of a repeated flow. -/
  | nextInput (flow : String)
  /-- The output of the workflow. -/
  | output
  deriving DecidableEq

/-- What the graph of a workflow should rule out. -/
inductive GraphFault where
  | revisited | unknownFlow | callableRouted | missingTarget | reviewCompletes | collectionDepth
  | itemFlow | attemptsExhausted
  deriving DecidableEq

/-- What happens in a run, in order. -/
inductive Event where
  | flowStarted (flow : String) (role : FlowRole)
  | stepStarted (flow step : String)
  | stepSkipped (flow step : String)
  | conditionEvaluated (location : String) (result : Bool)
  | routeSelected (kind : RouteKind) (target : TransitionTargetPlan) (index : Option ℕ)
      (case : Option String)
  | repeatStopped (stop : RepeatStop)
  /-- An executor call with what its budget measured. -/
  | operation (flow step : String) (usage : Usage)
  /-- A boundary is evaluated over the records so far. -/
  | boundary (place : Boundary) (records : Records)
  /-- A step found the run at its limit of steps. -/
  | limitReached
  /-- A defensive check of the graph failed. -/
  | misrouted (fault : GraphFault)
  /-- A technical failure. -/
  | failed (failure : Failure)

/-- What a run shares across its flows. -/
structure World where
  consumed : ℕ := 0
  reads : ℕ := 0
  calls : ℕ := 0
  log : List Event := []

/-- The world after a clock read. -/
def World.tick (w : World) : World := { w with reads := w.reads + 1 }

/-- The world after some events. -/
def World.append (w : World) (events : List Event) : World := { w with log := w.log ++ events }

/-! ## Services -/

/-- Facts of one step invocation. -/
structure StepContext where
  workflow : String
  revision : String
  stepId : String
  metadata : Object
  deadline : ℚ
  modelTimeout : ℚ
  toolTimeout : ℚ
  budget : StepBudget
  flowId : String
  attempt : ℕ
  collectionItem : Option String
  flowRole : FlowRole

/-- How an executor call ended; a value that is no well-formed outcome is `malformed`. -/
inductive Executed where
  | raised (error : Exn)
  | malformed
  | returned (outcome : StepOutcome)

/-- What the engine calls: the clock by the number of reads before, the executor by the number of
calls before, and the validator of flow inputs. -/
structure Services where
  clock : ℕ → ℚ
  execute : ℕ → StepPlan → Object → StepContext → Executed × StepBudget
  validateFlowInput : String → Json → Except Exn Unit
  tables : CharTables

/-- The limits of a run. -/
structure ExecutionLimits where
  modelTimeout : ℚ := 300
  toolTimeout : ℚ := 30
  maxSteps : ℕ := 128
  modelRequestsPerStep : ℕ := 16
  toolCallsPerStep : ℕ := 16

/-- A compiled workflow with its services, and the deadline of the run. -/
structure WorkflowRunner where
  plan : WorkflowPlan
  limits : ExecutionLimits
  services : Services
  deadline : ℚ

/-! ## Computations -/

/-- A computation over local data; a failure keeps the data and the world. -/
abbrev Exec (σ : Type) := EStateM Exn (σ × World)

namespace Exec

variable {σ τ α : Type}

/-- Read the locals. -/
def locals : Exec σ σ := fun s => .ok s.1 s

/-- Change the locals. -/
def update (f : σ → σ) : Exec σ Unit := fun s => .ok () (f s.1, s.2)

/-- A pure computation. -/
def lift (x : Except Exn α) : Exec σ α := fun s =>
  match x with
  | .ok a => .ok a s
  | .error e => .error e s

/-- Run without the local data. -/
def onWorld (x : Exec Unit α) : Exec σ α := fun s =>
  match x ((), s.2) with
  | .ok a (_, w) => .ok a (s.1, w)
  | .error e (_, w) => .error e (s.1, w)

/-- Run a part that never fails. -/
def total (x : World → α × World) : Exec σ α := fun s => .ok (x s.2).1 (s.1, (x s.2).2)

/-- Run with other local data, which a failure drops. -/
def within (data : τ) (x : Exec τ α) : Exec Unit (α × τ) := fun s =>
  match x (data, s.2) with
  | .ok a (t, w) => .ok (a, t) ((), w)
  | .error e (_, w) => .error e ((), w)

/-- The outcome of a part as a value. -/
def caught (x : Exec σ α) : Exec σ (Except Exn α) := fun s =>
  match x s with
  | .ok a s => .ok (.ok a) s
  | .error e s => .ok (.error e) s

/-- Raise an error. -/
def raise (code : ErrorCode) : Exec σ α := fun s => .error (.service code.error) s

/-- Refuse what the graph should rule out. -/
def refuse (fault : GraphFault) : Exec σ α := fun s =>
  .error (.service ErrorCode.invalidConfiguration.error) (s.1, s.2.append [.misrouted fault])

/-- Leave events. -/
def emit (events : List Event) : Exec σ Unit := fun s => .ok () (s.1, s.2.append events)

/-- Read the clock. -/
def now (r : WorkflowRunner) : Exec σ ℚ := fun s =>
  .ok (r.services.clock s.2.reads) (s.1, s.2.tick)

/-- Raise when the deadline has passed. -/
def checkDeadline (r : WorkflowRunner) : Exec σ Unit := do
  if r.deadline ≤ (← now r) then raise .runTimeout else pure ()

end Exec

/-- Read the clock to report which bound a timeout hit. -/
def timeoutFailure (r : WorkflowRunner) (w : World) : Failure × World :=
  ((timeoutCode (r.services.clock w.reads) r.deadline).error, w.tick)

/-- The failure an exception is recorded as. -/
def failureOf (r : WorkflowRunner) (error : Exn) (w : World) : Failure × World :=
  match error with
  | .timeout => timeoutFailure r w
  | .service error =>
      if error.code ∈ timeoutCodes ∧ !error.retryable then timeoutFailure r w else (error, w)
  | .other => (ErrorCode.dependencyFailure.error, w)

/-- Record an exception as a technical failure. -/
def recordFailure (r : WorkflowRunner) (error : Exn) (w : World) : Failure × World :=
  let (failure, w) := failureOf r error w
  (failure, w.append [.failed failure])

end Foliqant.Core
