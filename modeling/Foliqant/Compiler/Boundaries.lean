import Foliqant.Compiler.StepBindingsSpec

/-!
# Boundary bindings

What the bindings between flows may read: a known root, of another flow only the result or the attempts,
and without a default only flows that ran on every path. The flows that completed before a boundary, not
only ran, are found from the review routes.
-/

namespace Foliqant.Compiler

open Foliqant.Core

/-! ## References -/

/-- Why a boundary binding is rejected. -/
inductive BoundaryError where
  | danglingPointer | invalidFlowReference | unavailableFlowReference
  deriving DecidableEq

/-- The reason code of a rejected boundary. -/
def BoundaryError.reason : BoundaryError → String
  | .danglingPointer => "dangling_pointer"
  | .invalidFlowReference => "invalid_flow_reference"
  | .unavailableFlowReference => "unavailable_flow_reference"

section Require

variable {ε : Type} (check : String → Except ε Unit) (available : String → Bool) (fail : ε)

mutual

/-- Check every pointer; a binding without default needs an available source, or fails as given. -/
def requireSource : BindingPlan → Except ε Unit
  | .literal _ => .ok ()
  | .fields entries => requireSources entries
  | .pointer path default => do
      check path
      if default.isSome || available path then .ok () else .error fail
  | .firstOf members default => do
      members.forM check
      if default.isSome || members.any available then .ok () else .error fail

/-- The bindings of an object, each in turn. -/
def requireSources : Bindings → Except ε Unit
  | [] => .ok ()
  | (_, binding) :: rest => do
      requireSource binding
      requireSources rest

end

end Require

/-- What boundary bindings may read. -/
def boundaryRoots : List String := ["payload", "metadata", "flows"]

/-- What they may read of a flow. -/
def recordFields : List String := ["result", "attempts"]

namespace Graph

variable (graph : Graph)

/-- A retry flow of a routed flow. -/
def isRetry (name : String) : Bool := (Dict.keys graph.retryOf).contains name

/-- The flows that run on every path to a flow, with the flow itself, in the order of the workflow. -/
def dominating (plan : WorkflowPlan) (name : String) : List String :=
  (plan.flows.map FlowPlan.name).filter fun other => some other ∈ graph.dominators.get (some name)

/-- A route path leads from a flow to another one. -/
def leads (start goal : String) : Bool :=
  (Digraph.reachable (fun name => (graph.successors.lookup name).getD [])
    (Dict.keys graph.successors) [start]).contains goal

end Graph

section Checks

variable (plan : WorkflowPlan) (graph : Graph)

/-- A pointer of a boundary reads a known root, and what a declared flow records. -/
def flowReferenceCheck (pointer : String) : Except BoundaryError Unit :=
  match tokens pointer with
  | [] => .ok ()
  | root :: parts =>
      if !boundaryRoots.contains root then .error .danglingPointer
      else if root != "flows" then .ok ()
      else
        match parts with
        | name :: field :: _ =>
            match plan.flow? name with
            | none => .error .invalidFlowReference
            | some target =>
                if !recordFields.contains field then .error .invalidFlowReference
                else if target.callable && !graph.isRetry name then .error .invalidFlowReference
                else if field == "attempts" && target.repeatPlan.isNone && !graph.isRetry name then
                  .error .invalidFlowReference
                else .ok ()
        | _ => .error .invalidFlowReference

/-- A pointer of a boundary inside a collection item reads the records of the item only. -/
def itemReferenceCheck (names : List String) (pointer : String) : Except BoundaryError Unit :=
  match tokens pointer with
  | [] => .ok ()
  | root :: parts =>
      if !boundaryRoots.contains root then .error .danglingPointer
      else if root != "flows" then .ok ()
      else
        match parts with
        | name :: field :: _ =>
            if !names.contains name || !recordFields.contains field then .error .invalidFlowReference
            else .ok ()
        | _ => .error .invalidFlowReference

/-- A checked pointer reads no flow, or an available one. -/
def flowAvailable (available : List String) (pointer : String) : Bool :=
  match tokens pointer with
  | "flows" :: name :: _ => available.contains name
  | _ => true

/-- The bindings of a boundary of the workflow, with the flows available there. -/
def boundaryBindings (available : List String) (bindings : Bindings) : Except BoundaryError Unit :=
  requireSources (flowReferenceCheck plan graph) (flowAvailable available)
    .unavailableFlowReference bindings

/-- The binding of the cases of a flow. -/
def caseBindings (flow : FlowPlan) : Bindings :=
  match flow.transition with
  | some (.cases route) => [("binding", route.binding)]
  | _ => []

/-- The retry bindings of a repeated flow; the retry input may read the retry flow as well. -/
def validateRepeatBindings (flow : FlowPlan) (rep : RepeatPlan) : Except BoundaryError Unit := do
  let dominators := graph.dominating plan flow.name
  if rep.retryFlow.isSome then boundaryBindings plan graph dominators rep.retryFlowInput
  boundaryBindings plan graph (dominators ++ rep.retryFlow.toList) rep.retryInput

/-- A repeat in the scope of a collection item. -/
def validateItemRepeat (flow : FlowPlan) (rep : RepeatPlan) : Except BoundaryError Unit := do
  let names := flow.name :: rep.retryFlow.toList
  requireSources (itemReferenceCheck names) (flowAvailable [flow.name]) .unavailableFlowReference
    rep.retryFlowInput
  requireSources (itemReferenceCheck names) (flowAvailable names)
    .unavailableFlowReference rep.retryInput

/-- `_validate_boundaries` for one flow: its input, its cases and its repeat. -/
def validateFlowBoundaries (flow : FlowPlan) : Except BoundaryError Unit :=
  if flow.callable then
    match flow.repeatPlan with
    | none => .ok ()
    | some rep => validateItemRepeat flow rep
  else do
    boundaryBindings plan graph (graph.availableFlows plan flow.name) flow.input
    boundaryBindings plan graph (graph.dominating plan flow.name) (caseBindings flow)
    match flow.repeatPlan with
    | none => .ok ()
    | some rep => validateRepeatBindings plan graph flow rep

/-- A flow after which a run may end without a failure. -/
def isTerminal (flow : FlowPlan) : Bool :=
  !flow.callable && (flow.onUnresolved.isNone ||
    (flowTargets flow).any fun target => target.outcome.isSome)

/-- The flows on every path to an end of the run. -/
def outputFlows : List String :=
  let terminals := plan.flows.filter isTerminal
  if terminals.isEmpty then []
  else (plan.flows.map FlowPlan.name).filter fun other =>
    terminals.all fun flow => (graph.dominating plan flow.name).contains other

/-- The bindings of the output. -/
def outputBindings : Bindings := (plan.output.map fun output => ("output", output)).toList

/-- Check every boundary of a workflow for what it reads. -/
def validateBoundaries : Except BoundaryError Unit := do
  plan.flows.forM (validateFlowBoundaries plan graph)
  boundaryBindings plan graph (outputFlows plan graph) (outputBindings plan)

/-- Routed flows that, wherever they ran before a flow, completed. A flow whose review route leads there
may have stopped for review. -/
def completedBefore (consumer : String) : List String :=
  (graph.mayHaveRun consumer).filter fun other =>
    other != consumer &&
      match plan.flow? other with
      | none => false
      | some flow =>
          !flow.callable && !((flowReviews flow).filterMap
              TransitionTargetPlan.flow).any fun target =>
            target == consumer || graph.leads target consumer

end Checks

end Foliqant.Compiler
