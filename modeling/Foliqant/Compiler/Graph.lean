import Foliqant.Common.DepthFirst
import Foliqant.Common.Dominators
import Foliqant.Core.Bindings

/-!
# The graph of a workflow

The checks on repeats, starts, routes, collections and retry flows, the search that refuses cycles,
and the dominators and ancestors of the routed flows.
-/

namespace Foliqant.Compiler

open Foliqant.Core

/-- Why a graph or a budget is rejected. -/
inductive CompilationError where
  | invalidRepeat
  | missingStart
  | reviewCompletesRun
  | missingFlow
  | invalidRoutedFlow
  | invalidCallableFlow
  | invalidDefaultReviewRoute
  | reviewRouteToSelf
  | workflowCycle
  | collectionDepthExceeded
  | unreachableFlow
  | repeatBudget
  deriving DecidableEq

/-- The word for an error. -/
def CompilationError.reason : CompilationError → String
  | .invalidRepeat => "invalid_repeat"
  | .missingStart => "missing_start"
  | .reviewCompletesRun => "review_completes_run"
  | .missingFlow => "missing_flow"
  | .invalidRoutedFlow => "invalid_routed_flow"
  | .invalidCallableFlow => "invalid_callable_flow"
  | .invalidDefaultReviewRoute => "invalid_default_review_route"
  | .reviewRouteToSelf => "review_route_to_self"
  | .workflowCycle => "workflow_cycle"
  | .collectionDepthExceeded => "collection_depth_exceeded"
  | .unreachableFlow => "unreachable_flow"
  | .repeatBudget => "repeat_budget"

/-- Fail unless a condition holds. -/
def require (condition : Bool) (error : CompilationError) : Except CompilationError Unit :=
  if condition then .ok () else .error error

/-- A requirement passes when it holds. -/
theorem require_eq_ok {condition : Bool} {error : CompilationError} {u : Unit} :
    require condition error = .ok u ↔ condition = true := by
  cases condition <;> simp [require]

/-! ## Targets -/

/-- The targets of a transition. -/
def routeTargets : TransitionPlan → List TransitionTargetPlan
  | .direct target => [target]
  | .cases route => route.default :: route.cases.map Prod.snd
  | .route route => route.entries.map RouteEntryPlan.target

/-- The targets of a review. -/
def reviewTargets : ReviewRoutePlan → List TransitionTargetPlan
  | .direct target => [target]
  | .issues route => route.default :: route.issues.map Prod.snd
  | .route route => route.entries.map RouteEntryPlan.target

/-- The targets of the transition in the order they are authored. -/
def locatedTargets : TransitionPlan → List TransitionTargetPlan
  | .cases route => route.cases.map Prod.snd ++ [route.default]
  | transition => routeTargets transition

/-- Where a flow leads when it has completed. -/
def flowTransitions (flow : FlowPlan) : List TransitionTargetPlan :=
  ((flow.transition.map routeTargets).getD [])

/-- Where a flow leads when it needs review. -/
def flowReviews (flow : FlowPlan) : List TransitionTargetPlan :=
  ((flow.onUnresolved.map reviewTargets).getD [])

/-- Where a flow leads. -/
def flowTargets (flow : FlowPlan) : List TransitionTargetPlan :=
  flowTransitions flow ++ flowReviews flow

/-- The targets of a routed flow in the order they are authored; a callable flow has none. -/
def flowLocatedTargets (flow : FlowPlan) : List TransitionTargetPlan :=
  if flow.callable then [] else (flow.transition.map locatedTargets).getD [] ++ flowReviews flow

/-- The flows that the collection steps of a flow may call. -/
def collectionTargets (flow : FlowPlan) : List String :=
  flow.steps.flatMap fun step =>
    match step.kind with
    | .flowCollection _ flows _ => flows
    | _ => []

/-- The flows that a flow routes to. -/
def routed (flow : FlowPlan) : List String :=
  ((flowTargets flow).filterMap TransitionTargetPlan.flow).eraseDups

/-! ## Repeats -/

/-- The keys that `retry_input` may override; none for an open input. -/
def repeatInputKeys (declared : FlowPlan → Option (List String)) (flow : FlowPlan) :
    Option (List String) :=
  if flow.callable then declared flow else some (Dict.keys flow.input)

/-- The pointers of a binding. -/
def pointers : BindingPlan → List String
  | .literal _ => []
  | .pointer path _ => [path]
  | .firstOf members _ => members
  | .fields entries => entries.attach.flatMap fun entry => pointers entry.1.2
termination_by binding => sizeOf binding
decreasing_by
  have := List.sizeOf_lt_of_mem entry.2
  obtain ⟨⟨name, binding⟩, mem⟩ := entry
  simp_all only [Prod.mk.sizeOf_spec, BindingPlan.fields.sizeOf_spec]
  omega

/-- The reference tokens of a pointer. -/
def tokens (pointer : String) : List String :=
  (pointer.toList.splitOn '/').tail.map fun part => String.ofList (unescapePart part)

section Checks

variable (plan : WorkflowPlan)

/-- A pointer reads a callable flow other than one flow. -/
def readsCallable (name : String) (pointer : String) : Bool :=
  match tokens pointer with
  | "flows" :: other :: _ =>
      other != name && ((plan.flow? other).map FlowPlan.callable).getD false
  | _ => false

/-- A flow may serve as the retry flow of another one, which no other repeat may use. -/
def retryAccepted (retryOf : List (String × String)) (name retry : String) : Bool :=
  match plan.flow? retry with
  | none => false
  | some target =>
      target.callable && retry != name && (retryOf.lookup retry).isNone && target.repeatPlan.isNone

/-- Check the repeat of one flow and own its retry flow. -/
def validateRepeat (declared : FlowPlan → Option (List String)) (retryOf : List (String × String))
    (flow : FlowPlan) : Except CompilationError (List (String × String)) :=
  match flow.repeatPlan with
  | none => .ok retryOf
  | some rep => do
      require (((repeatInputKeys declared flow).map fun keys =>
        (Dict.keys rep.retryInput).all (· ∈ keys)).getD true) .invalidRepeat
      match rep.retryFlow with
      | none => do
          require (!(rep.retryInput.any fun entry =>
            (pointers entry.2).any (readsCallable plan flow.name))) .invalidRepeat
          return retryOf
      | some retry => do
          require (retryAccepted plan retryOf flow.name retry) .invalidRepeat
          return retryOf ++ [(retry, flow.name)]

/-- Check the repeats and return the single owner of each retry flow. -/
def validateRepeats (declared : FlowPlan → Option (List String)) :
    Except CompilationError (List (String × String)) :=
  plan.flows.foldlM (validateRepeat plan declared) []

/-! ## The checks of the graph -/

/-- The flow of every start candidate. -/
def startPaths : List String :=
  match plan.start with
  | .flow name => [name]
  | .route route => route.entries.filterMap fun entry => entry.target.flow

/-- The flows that may come first. -/
def starts : List String := (startPaths plan).eraseDups

/-- A declared flow that is routed. -/
def isRouted (name : String) : Bool := ((plan.flow? name).map fun flow => !flow.callable).getD false

/-- A declared flow that is callable. -/
def isCallable (name : String) : Bool := ((plan.flow? name).map FlowPlan.callable).getD false

/-- A target is a routed flow of the plan or an outcome. -/
def checkTarget (target : TransitionTargetPlan) : Except CompilationError Unit :=
  match target.flow with
  | none => .ok ()
  | some name =>
      match plan.flow? name with
      | none => .error .missingFlow
      | some flow => require (!flow.callable) .invalidRoutedFlow

/-- The targets of one flow are declared and of the right kind. -/
def checkTargets (flow : FlowPlan) : Except CompilationError Unit := do
  require (flow.callable || !(flowReviews flow).any fun target =>
    decide (target.outcome = some .completed)) .reviewCompletesRun
  (flowLocatedTargets flow).forM (checkTarget plan)
  (collectionTargets flow).forM fun name => require (isCallable plan name) .invalidCallableFlow

/-- The edges of a flow: the target and whether the edge nests a collection. A retry flow adds no
nesting. -/
def edges (retryOf : List (String × String)) (flow : FlowPlan) : List (String × ℕ) :=
  let routes := (flowLocatedTargets flow).filterMap TransitionTargetPlan.flow
  let retries := (retryOf.filter fun entry => entry.2 = flow.name).map Prod.fst
  (routes.map (·, 0) ++ (collectionTargets flow).map (·, 1) ++ retries.map (·, 0)).eraseDups

/-- What a function gives for the flow of a name. -/
def ofName {α : Type} (f : FlowPlan → List α) (name : String) : List α :=
  ((plan.flow? name).map f).getD []

/-- A route path leads from a flow to another one. -/
def reaches (start goal : String) : Bool :=
  goal ∈ Digraph.reachable (ofName plan routed) (plan.flows.map FlowPlan.name) [start]

/-- The review routes of a flow neither target the flow itself nor, when inherited, lead back. -/
def checkReviews (flow : FlowPlan) : Except CompilationError Unit :=
  if flow.callable then .ok ()
  else ((flowReviews flow).filterMap TransitionTargetPlan.flow).forM fun target =>
    if flow.onUnresolvedInherited then
      require (target != flow.name && !reaches plan target flow.name) .invalidDefaultReviewRoute
    else require (target != flow.name) .reviewRouteToSelf

/-- How many collection levels nest below a flow whose targets are known. -/
def callDepth (retryOf : List (String × String)) (depths : List (String × ℕ)) (name : String) : ℕ :=
  ((ofName plan (edges retryOf) name).map fun edge => ((depths.lookup edge.1).getD 0) + edge.2).foldl
    max 0

/-- The depth of a flow whose calls are known. -/
def finishFlow (retryOf : List (String × String)) (depths : List (String × ℕ)) (name : String) :
    Except CompilationError ℕ := do
  let depth := callDepth plan retryOf depths name
  require (depth ≤ MAX_COLLECTION_DEPTH) .collectionDepthExceeded
  return depth

/-- The flows that a flow leads to or calls. -/
def successors (retryOf : List (String × String)) (name : String) : List String :=
  (ofName plan (edges retryOf) name).map Prod.fst

/-- The flows below the start candidates with their call depths; a cycle is refused. -/
def search (retryOf : List (String × String)) : Except CompilationError (List (String × ℕ)) :=
  DepthFirst.visitAll (successors plan retryOf) (finishFlow plan retryOf) .workflowCycle
    (plan.flows.length + 1) [] [] (starts plan)

/-! ## Dominators -/

/-- Dominators, may-precede sets and retry ownership of the routed graph. -/
structure Graph where
  dominators : Dominators.Table String
  ancestors : List (String × List String)
  /-- The retry flows of routed flows. -/
  retryOf : List (String × String)
  successors : List (String × List String)

/-- The flows that routes may lead to. -/
def routedFlows : List FlowPlan := plan.flows.filter fun flow => !flow.callable

/-- The flows that route to a flow, and the root before a start candidate. -/
def predecessors (name : String) : List (Option String) :=
  ((plan.flows.filter fun flow => name ∈ routed flow).map fun flow => some flow.name) ++
    if name ∈ starts plan then [none] else []

/-- The flows that may precede a flow. -/
def flowAncestors (name : String) : List String :=
  Digraph.reachable (fun name => (predecessors plan name).reduceOption)
    ((routedFlows plan).map FlowPlan.name) (predecessors plan name).reduceOption

/-- The graph of a plan. -/
def graphOf (retryOf : List (String × String)) : Graph where
  dominators := Dominators.solve (predecessors plan) ((routedFlows plan).map FlowPlan.name)
  ancestors := (routedFlows plan).map fun flow => (flow.name, flowAncestors plan flow.name)
  retryOf := retryOf.filter fun entry => isRouted plan entry.2
  successors := (routedFlows plan).map fun flow => (flow.name, routed flow)

/-- Check the graph of a workflow and analyse it. -/
def validateGraph (retryOf : List (String × String)) : Except CompilationError Graph := do
  (startPaths plan).forM fun name => require (isRouted plan name) .missingStart
  plan.flows.forM (checkTargets plan)
  plan.flows.forM (checkReviews plan)
  let visited ← search plan retryOf
  require (plan.flows.all fun flow => flow.name ∈ Dict.keys visited) .unreachableFlow
  return graphOf plan retryOf

end Checks

namespace Graph

variable (graph : Graph)

/-- The flows that ran before a flow on every path, in the order of the workflow. -/
def availableFlows (plan : WorkflowPlan) (name : String) : List String :=
  (plan.flows.map FlowPlan.name).filter fun other =>
    some other ∈ graph.dominators.get (some name) ∧ other ≠ name

/-- The flows that a flow is the retry of. -/
def retryFor (name : String) : List String :=
  (graph.retryOf.filter fun entry => entry.2 = name).map Prod.fst

/-- The flows that can have produced a record when the routes of a flow are evaluated. -/
def mayHaveRun (name : String) : List String :=
  let routed := (graph.ancestors.lookup name).getD [] ++ [name]
  routed ++ routed.flatMap graph.retryFor

end Graph

end Foliqant.Compiler
