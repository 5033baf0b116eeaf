import Foliqant.Compiler.StaticValues
import Foliqant.Compiler.StepBindings

/-!
# Conditional routes that can never be selected

The scope and type checks of the entries of conditional routes, the entries that static verdicts rule
out, and the flows that only such entries lead to.
-/

namespace Foliqant.Compiler

open Foliqant.Core

section Scope

variable (plan : WorkflowPlan) (graph : Graph)

/-- A pointer at a boundary reads the payload, the metadata, or the result or the attempts of a flow that
has a record in the workflow. -/
def checkFlowReference (pointer : String) : Except ScopeError Unit :=
  match tokens pointer with
  | [] => .ok ()
  | "flows" :: name :: field :: _ =>
      let retry := (graph.retryOf.lookup name).isSome
      match plan.flow? name with
      | none => .error .invalidFlowReference
      | some target =>
          if field ≠ "result" ∧ field ≠ "attempts" then .error .invalidFlowReference
          else if target.callable ∧ !retry then .error .invalidFlowReference
          else if field = "attempts" ∧ target.repeatPlan.isNone ∧ !retry then
            .error .invalidFlowReference
          else .ok ()
  | "flows" :: _ => .error .invalidFlowReference
  | first :: _ => if first = "payload" ∨ first = "metadata" then .ok () else .error .danglingPointer

/-- A condition reads no flow that can never have run before it, and a start condition reads none. -/
def checkScope (allowed : List String) (start : Bool) (condition : ConditionPlan) :
    Except ScopeError Unit :=
  (conditionPointers condition).forM fun pointer => do
    if start && (tokens pointer).head? == some "flows" then .error .unavailableFlowReference
    checkFlowReference plan graph pointer
    match tokens pointer with
    | "flows" :: name :: _ => if name ∈ allowed then .ok () else .error .unavailableFlowReference
    | _ => .ok ()

end Scope

section Routes

variable (repr : ℚ → String) (resources : SchemaResources) (resolve : String → Static)

/-- The indices of the entries that can never be selected, from an index on: those whose condition is
statically false, and those that follow an entry whose condition always holds. -/
def checkEntries (scope : ConditionPlan → Except ScopeError Unit) :
    Bool → ℕ → List RouteEntryPlan → Except ScopeError (List ℕ)
  | _, _, [] => .ok []
  | true, index, _ :: rest => do return index :: (← checkEntries scope true (index + 1) rest)
  | false, index, entry :: rest =>
      match entry.condition with
      | none => checkEntries scope false (index + 1) rest
      | some condition => do
          scope condition
          let verdict ← checkCondition repr resources resolve condition
          let dead ← checkEntries scope (verdict == some true) (index + 1) rest
          return if verdict = some false then index :: dead else dead

variable (plan : WorkflowPlan) (graph : Graph)

/-- The dead entries of one routing table, with its conditions checked on the way. -/
def checkRouteConditions (allowed : List String) (start : Bool) (route : ConditionalRoutingPlan) :
    Except ScopeError (List ℕ) :=
  checkEntries repr resources resolve (checkScope plan graph allowed start) false 0 route.entries

/-- The dead entries of a routed start. -/
def startDead : Except ScopeError (List (String × ℕ)) :=
  match plan.start with
  | .flow _ => .ok []
  | .route route => do
      return (← checkRouteConditions repr resources resolve plan graph [] true route).map (("", ·))

/-- The dead entries of a flow's transition. -/
def transitionDead (flow : FlowPlan) : Except ScopeError (List (String × ℕ)) :=
  match flow.transition with
  | some (.route route) => do
      let allowed := graph.mayHaveRun flow.name
      return (← checkRouteConditions repr resources resolve plan graph allowed false route).map
        ((flow.name, ·))
  | _ => .ok []

/-- The checks of a review route; its entries are not dead. -/
def checkReview (flow : FlowPlan) : Except ScopeError Unit :=
  match flow.onUnresolved with
  | some (.route route) => do
      let _ ← checkRouteConditions repr resources resolve plan graph
          (graph.mayHaveRun flow.name) false
        route
  | _ => .ok ()

/-- The dead entries of the transition of a routed flow. -/
def flowDead (flow : FlowPlan) : Except ScopeError (List (String × ℕ)) :=
  if flow.callable then .ok []
  else do
    let dead ← transitionDead repr resources resolve plan graph flow
    checkReview repr resources resolve plan graph flow
    return dead

/-- The dead entries of all flows, in order. -/
def flowsDead : List FlowPlan → Except ScopeError (List (String × ℕ))
  | [] => .ok []
  | flow :: rest => do
      let dead ← flowDead repr resources resolve plan graph flow
      return dead ++ (← flowsDead rest)

/-- The dead entries of the conditional routes: the source, empty for the start, and the index. -/
def deadEntries : Except ScopeError (List (String × ℕ)) := do
  let first ← startDead repr resources resolve plan graph
  return first ++ (← flowsDead repr resources resolve plan graph plan.flows)

end Routes

/-! ## Flows behind dead entries -/

section Live

variable (plan : WorkflowPlan) (retryOf : List (String × String)) (dead : List (String × ℕ))

/-- The flows of the entries of a source that are not dead. -/
def liveEntries (source : String) (entries : List RouteEntryPlan) : List String :=
  entries.zipIdx.filterMap fun (entry, index) =>
    if (source, index) ∈ dead then none else entry.target.flow

/-- The flows a transition leads to past its dead entries. -/
def liveTransition (source : String) (transition : TransitionPlan) : List String :=
  match transition with
  | .route route => liveEntries dead source route.entries
  | transition => (routeTargets transition).filterMap TransitionTargetPlan.flow

/-- The flows a review leads to past its dead entries. -/
def liveReview (source : String) (review : ReviewRoutePlan) : List String :=
  match review with
  | .route route => liveEntries dead source route.entries
  | review => (reviewTargets review).filterMap TransitionTargetPlan.flow

/-- The flows a run can start with. -/
def liveStart : List String :=
  match plan.start with
  | .flow name => [name]
  | .route route => liveEntries dead "" route.entries

/-- The flows that a flow may lead to. A review route may be selected by any issue: its conditions are
not pruned. -/
def liveNext (flow : FlowPlan) : List String :=
  ((flow.transition.map (liveTransition dead flow.name)).getD []) ++
    ((flow.onUnresolved.map (liveReview dead ("review:" ++ flow.name))).getD []) ++
      collectionTargets flow ++ (retryOf.filter fun entry => entry.2 = flow.name).map Prod.fst

/-- The flows that some run may execute. -/
def liveFlows : List String :=
  Digraph.reachable (ofName plan (liveNext retryOf dead)) (plan.flows.map FlowPlan.name)
    (liveStart plan dead)

/-- A flow that only dead entries lead to is refused. -/
def unreachableThroughDeadEntries : Except (CompilationError × String) Unit :=
  if dead = [] then .ok ()
  else
    match plan.flows.find? fun flow => flow.name ∉ liveFlows plan retryOf dead with
    | none => .ok ()
    | some flow => .error (.unreachableFlow, flow.name)

end Live

end Foliqant.Compiler
