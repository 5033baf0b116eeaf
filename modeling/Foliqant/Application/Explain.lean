import Foliqant.Application.ConditionLabels
import Foliqant.Common.Tally
import Foliqant.Core.TracedCalls
import Foliqant.Evaluation.Records

/-!
# The explain graph

`workflow_graph` lists the edges of a compiled workflow: the start, the transitions and review routes of
its flows, and the calls of collection steps and repeats. The runner selects targets with code of its
own. Every start and transition that a run records is one edge of the graph, with the same kind, form,
index and case, and every flow that a run calls is called along an edge of the flow that calls it.

Of the documents of the nodes only the labels of their conditions are kept, since there is no graph when one
of them cannot be written; the renderings of the graph are left out.
-/

namespace Foliqant.Application

open Foliqant.Core Compiler Evaluation

/-- Kinds of edges. -/
inductive EdgeKind where
  | start | transition | review | collection | retry
  deriving DecidableEq

/-- The form of the route an edge belongs to, or a call. -/
inductive EdgeRoute where
  | direct | cases | route | review | call
  deriving DecidableEq

/-- The node before the first flow. -/
def START : String := "start"

/-- One configured edge; `target` is a flow or `outcome:<name>`. -/
structure GraphEdge where
  source : String
  target : String
  kind : EdgeKind
  label : String
  route : EdgeRoute
  index : Option ℕ := none
  case : Option String := none
  inherited : Bool := false
  condition : Option ConditionPlan := none

/-- The text of a target. -/
def targetText (flow : Option String) (outcome : Option Disposition) : String :=
  match flow with
  | some name => name
  | none => "outcome:" ++ ((outcome.map Disposition.value).getD "None")

/-- `_target`. -/
def target (target : TransitionTargetPlan) : String := targetText target.flow target.outcome

/-- The routes that have edges. -/
inductive RoutePlan where
  | direct (target : TransitionTargetPlan)
  | cases (route : MatchRoutingPlan)
  | route (route : ConditionalRoutingPlan)
  | issues (route : UnresolvedRoutingPlan)

/-- A transition as a route. -/
def RoutePlan.ofTransition : TransitionPlan → RoutePlan
  | .direct target => .direct target
  | .cases matching => .cases matching
  | .route entries => .route entries

/-- A review as a route. -/
def RoutePlan.ofReview : ReviewRoutePlan → RoutePlan
  | .direct target => .direct target
  | .issues unresolved => .issues unresolved
  | .route entries => .route entries

/-- The conditions of a route that are shown. -/
def routeConditions : RoutePlan → List ConditionPlan
  | .route route => route.entries.filterMap RouteEntryPlan.condition
  | .direct _ | .cases _ | .issues _ => []

/-- The route of a flow that completed, if it has one. -/
def transitionRoute (flow : FlowPlan) : Option RoutePlan := flow.transition.map RoutePlan.ofTransition

/-- The effective review route of a flow; without one, the workflow ends with a review. A callable flow
returns to its caller. -/
def reviewRoute (flow : FlowPlan) : Option RoutePlan :=
  if flow.callable then none
  else some (((flow.onUnresolved).map RoutePlan.ofReview).getD
    (.direct { outcome := some .needsReview }))

/-- The conditions of a repeat with the pointer that their labels shorten. -/
def repeatConditions (flow : FlowPlan) : List (Option String × ConditionPlan) :=
  match flow.repeatPlan with
  | none => []
  | some rep =>
      (some ("/flows/" ++ flow.name ++ "/result"), rep.untilCondition) ::
        if rep.retryFlow.isSome then rep.continueWhen.toList.map fun condition =>
          (none, condition) else []

/-- One flow node, by the labels of its conditions. -/
structure GraphFlow where
  id : String
  labels : List String

/-- The topology of one compiled workflow. -/
structure WorkflowGraph where
  startLabels : List String
  flows : List GraphFlow
  edges : List GraphEdge

section Graph

variable (texts : LabelTexts)

/-- The label of an entry of a conditional route. -/
def entryLabel : Option ConditionPlan → Except ValueError String
  | some condition => conditionLabel texts none condition
  | none => .ok "otherwise"

/-- The edge of an entry of a conditional route. -/
def entryEdge (source : String) (kind : EdgeKind) (inherited : Bool) (entry : RouteEntryPlan)
    (index : ℕ) : Except ValueError GraphEdge := do
  let label ← entryLabel texts entry.condition
  return {
    source := source
    target := target entry.target
    kind := kind
    label := toString index ++ ": " ++ label
    route := if kind = .review then .review else .route
    index := some index
    inherited := inherited
    condition := entry.condition }

/-- The edges of a route. -/
def routeEdges (source : String) (kind : EdgeKind) (inherited : Bool) :
    RoutePlan → Except ValueError (List GraphEdge)
  | .cases route => .ok
      ((route.cases.map fun (key, destination) =>
        { source := source, target := target destination, kind := kind, label := key, route := .cases,
          case := some key }) ++
      [{ source := source, target := target route.default, kind := kind, label := "default",
         route := .cases }])
  | .route route => route.entries.zipIdx.mapM fun entry =>
      entryEdge texts source kind inherited entry.1 entry.2
  | .issues route => .ok
      ({ source := source, target := target route.default, kind := kind, label := "review: default",
         route := .review, inherited := inherited } ::
      route.issues.map fun (issue, destination) =>
        { source := source, target := target destination, kind := kind,
            label := "review: " ++ issue.value,
          route := .review, case := some issue.value, inherited := inherited })
  | .direct destination => .ok
      [{ source := source, target := target destination, kind := kind
         label := if kind = .review then "review" else ""
         route := if kind = .review then .review else .direct, inherited := inherited }]

/-- The conditions of the start. -/
def startConditions : StartPlan → List ConditionPlan
  | .flow _ => []
  | .route route => routeConditions (.route route)

/-- The edges of the start. -/
def startEdges : StartPlan → Except ValueError (List GraphEdge)
  | .flow name => .ok [{ source := START, target := name, kind := .start, label := "", route := .direct }]
  | .route route => routeEdges texts START .start false (.route route)

/-- The edges of the transition of a flow. -/
def transitionEdges (flow : FlowPlan) : Except ValueError (List GraphEdge) :=
  match transitionRoute flow with
  | some route => routeEdges texts flow.name .transition false route
  | none => .ok []

/-- The edges of the review route of a flow. -/
def reviewEdges (flow : FlowPlan) : Except ValueError (List GraphEdge) :=
  match reviewRoute flow with
  | some route => routeEdges texts flow.name .review flow.onUnresolvedInherited route
  | none => .ok []

/-- The edges to the flows that a step calls. -/
def collectionEdges (flow : FlowPlan) (step : StepPlan) : List GraphEdge :=
  match step.kind with
  | .flowCollection _ flows _ => flows.map fun destination =>
      { source := flow.name, target := destination, kind := .collection, label := step.name, route := .call }
  | _ => []

/-- The label of the call of a retry flow. -/
def retryLabel : Option ConditionPlan → Except ValueError String
  | some condition => do return "retry, continue when " ++ (← conditionLabel texts none condition)
  | none => .ok "retry"

/-- The edge to the retry flow of a flow. -/
def retryEdges (flow : FlowPlan) : Except ValueError (List GraphEdge) :=
  match flow.repeatPlan with
  | some rep =>
      match rep.retryFlow with
      | some destination => do
          let label ← retryLabel texts rep.continueWhen
          return [{ source := flow.name, target := destination, kind := .retry, label := label,
                    route := .call }]
      | none => .ok []
  | none => .ok []

/-- The edges of a flow, in the order of the graph. -/
def flowEdges (flow : FlowPlan) : Except ValueError (List GraphEdge) := do
  let transition ← transitionEdges texts flow
  let review ← reviewEdges texts flow
  let retry ← retryEdges texts flow
  return transition ++ (review ++ (flow.steps.flatMap (collectionEdges flow) ++ retry))

/-- The labels in the document of a flow: those of its guards, its routes and its repeat. -/
def flowLabels (flow : FlowPlan) : Except ValueError (List String) := do
  let guards ← (flow.steps.filterMap StepPlan.guard).mapM (conditionLabel texts none)
  let transition ← ((transitionRoute flow).elim [] routeConditions).mapM (conditionLabel texts none)
  let review ← ((reviewRoute flow).elim [] routeConditions).mapM (conditionLabel texts none)
  let repeated ← (repeatConditions flow).mapM fun entry => conditionLabel texts entry.1 entry.2
  return guards ++ (transition ++ (review ++ repeated))

/-- The node of a flow and its edges. -/
def graphFlow (flow : FlowPlan) : Except ValueError (GraphFlow × List GraphEdge) := do
  let labels ← flowLabels texts flow
  let edges ← flowEdges texts flow
  return (⟨flow.name, labels⟩, edges)

/-- `workflow_graph`. -/
def workflowGraph (plan : WorkflowPlan) : Except ValueError WorkflowGraph := do
  let startLabels ← (startConditions plan.start).mapM (conditionLabel texts none)
  let start ← startEdges texts plan.start
  let flows ← plan.flows.mapM (graphFlow texts)
  return ⟨startLabels, flows.map Prod.fst, start ++ flows.flatMap Prod.snd⟩

end Graph

/-! ## What corresponds -/

/-- What a recorded start or transition and an edge have in common. -/
structure EdgeKey where
  source : String
  target : String
  kind : EdgeKind
  route : EdgeRoute
  index : Option ℕ
  case : Option String
  deriving DecidableEq

/-- What tells an edge apart. -/
def GraphEdge.key (edge : GraphEdge) : EdgeKey :=
  ⟨edge.source, edge.target, edge.kind, edge.route, edge.index, edge.case⟩

/-- A start is direct unless it records the entry of a route. -/
def startKey (start : StartRecord) : EdgeKey :=
  ⟨START, start.flow, .start, if start.routeIndex.isSome then .route else .direct, start.routeIndex,
    none⟩

/-- The word for a kind of route. -/
def edgeRoute : RouteKind → EdgeRoute
  | .direct => .direct
  | .cases => .cases
  | .route => .route
  | .review => .review

/-- The edge that a transition takes. -/
def transitionKey (transition : TransitionRecord) : EdgeKey :=
  ⟨transition.source, targetText transition.flow transition.outcome,
    match transition.reason with
    | .completed => .transition
    | .needsReview => .review,
    edgeRoute transition.routeKind, transition.routeIndex, transition.routeCase⟩

/-- How many edges have a key. -/
def edgeCount (edges : List GraphEdge) (key : EdgeKey) : ℕ := edges.countP fun edge => edge.key = key

/-- The calls that the call edges of a graph allow. -/
def callEdges (edges : List GraphEdge) : CallEdges := fun role owner callee =>
  match role with
  | .callable => edges.any fun edge => edge.key = ⟨owner, callee, .collection, .call, none, none⟩
  | .retry => edges.any fun edge => edge.key = ⟨owner, callee, .retry, .call, none, none⟩
  | .routed => false

/-- The cases of a transition, and the issues of a review route, have one entry for each key, as they
come from objects. -/
structure Keyed (plan : WorkflowPlan) : Prop where
  cases : ∀ flow ∈ plan.flows, ∀ route, flow.transition = some (.cases route) →
    (Dict.keys route.cases).Nodup
  issues : ∀ flow ∈ plan.flows, ∀ route, flow.onUnresolved = some (.issues route) →
    (Dict.keys route.issues).Nodup

end Foliqant.Application
