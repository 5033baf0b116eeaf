import Foliqant.Compiler.PatternMatch
import Foliqant.Common.Dict
import Foliqant.Core.Json

/-!
# Workflow plans

The compiled form of a workflow that the engine executes.
-/

namespace Foliqant.Core

open Compiler

/-- How deep collections may nest. -/
def MAX_COLLECTION_DEPTH : ℕ := 16

/-- A literal, a pointer, the first of several pointers, or an object of bindings. A pointer or
`firstOf` binding is optional exactly when it has a default. -/
inductive BindingPlan where
  | literal (value : Json)
  | pointer (path : String) (default : Option Json)
  | firstOf (members : List String) (default : Option Json)
  | fields (entries : List (String × BindingPlan))

/-- Named bindings, such as the inputs of a flow. -/
abbrev Bindings := List (String × BindingPlan)

/-- Comparisons of numbers. -/
inductive Comparison where
  | gt | gte | lt | lte | equals
  deriving DecidableEq

/-- Operators of conditions. -/
inductive ConditionOperator where
  | present | empty | equals | notEquals | isIn | notIn | gt | gte | lt | lte | matches | length
  deriving DecidableEq

/-- A compiled pattern. -/
structure Pattern where
  flags : Flags
  items : SubPattern

/-- One source and operator. The comparison is set only for `length`, the pattern for `matches`. -/
structure LeafConditionPlan where
  source : BindingPlan
  operator : ConditionOperator
  operand : Json := .null
  comparison : Option Comparison := none
  pattern : Option Pattern := none

/-- A compiled condition. -/
inductive ConditionPlan where
  | leaf (condition : LeafConditionPlan)
  | all (operands : List ConditionPlan)
  | any (operands : List ConditionPlan)
  | not (operand : ConditionPlan)

/-- Issues of a decision. -/
inductive DecisionIssue where
  | noSupportedAnswer | conflictingInformation | multipleValidOptions
  deriving DecidableEq

/-- A category with the description its author gave it. -/
structure CategoryPlan where
  id : String
  description : Option String := none
  deriving DecidableEq

/-- What a terminal target decides. -/
inductive Disposition where
  | completed | needsReview
  deriving DecidableEq

/-- A flow or a terminal disposition; the engine checks that it is exactly one. -/
structure TransitionTargetPlan where
  flow : Option String := none
  outcome : Option Disposition := none
  deriving DecidableEq

/-- Targets by the value of a binding. -/
structure MatchRoutingPlan where
  binding : BindingPlan
  cases : List (String × TransitionTargetPlan)
  default : TransitionTargetPlan

/-- A conditional target; the otherwise entry has no condition. -/
structure RouteEntryPlan where
  target : TransitionTargetPlan
  condition : Option ConditionPlan

/-- Ordered entries; the first true condition or the otherwise entry selects. -/
structure ConditionalRoutingPlan where
  entries : List RouteEntryPlan

/-- Agreeing targets of issues, otherwise the default. -/
structure UnresolvedRoutingPlan where
  default : TransitionTargetPlan
  issues : List (DecisionIssue × TransitionTargetPlan) := []

/-- The target and the issue that selected it. -/
def UnresolvedRoutingPlan.select (route : UnresolvedRoutingPlan) (issues : List DecisionIssue) :
    TransitionTargetPlan × Option DecisionIssue :=
  let routes := Dict.ofList route.issues
  match (issues.map fun issue => (routes.lookup issue).getD route.default).dedup with
  | [target] => (target, issues.find? fun issue => routes.lookup issue = some target)
  | _ => (route.default, none)

/-- The boundary of a completed flow. -/
inductive TransitionPlan where
  | direct (target : TransitionTargetPlan)
  | cases (route : MatchRoutingPlan)
  | route (route : ConditionalRoutingPlan)

/-- The boundary of a flow that stopped for review. -/
inductive ReviewRoutePlan where
  | direct (target : TransitionTargetPlan)
  | issues (route : UnresolvedRoutingPlan)
  | route (route : ConditionalRoutingPlan)

/-- Bounded repetition of a flow, with an optional callable retry flow. `retryFlowInput` binds the
input of the retry flow; `retryInput` overrides inputs of the repeated flow. -/
structure RepeatPlan where
  maxAttempts : ℕ
  two_le : 2 ≤ maxAttempts
  untilCondition : ConditionPlan
  retryFlow : Option String := none
  retryFlowInput : Bindings := []
  continueWhen : Option ConditionPlan := none
  retryInput : Bindings := []

/-- What a step executes. -/
inductive StepKind where
  | decision (sources : Bindings)
  | llm (input : Bindings)
  | mcp (arguments : Bindings)
  | handler (input : Bindings)
  | flowCollection (items : BindingPlan) (flows : List String) (maxItems : ℕ)

/-- One operation of a flow, optionally guarded. A collection calls at least one flow. -/
structure StepPlan where
  name : String
  kind : StepKind
  guard : Option ConditionPlan := none
  calls : ∀ items flows maxItems, kind = .flowCollection items flows maxItems → flows ≠ [] := by simp

/-- A step that runs a collection. -/
def StepKind.isCollection : StepKind → Bool
  | .flowCollection .. => true
  | _ => false

/-- The names of the steps differ, and a callable flow has no boundary: it returns to the step or the
repeat that called it. -/
structure FlowPlan where
  name : String
  input : Bindings := []
  steps : List StepPlan
  output : Option BindingPlan := none
  transition : Option TransitionPlan := none
  onUnresolved : Option ReviewRoutePlan := none
  /-- The review route is the default of the workflow. -/
  onUnresolvedInherited : Bool := false
  callable : Bool := false
  repeatPlan : Option RepeatPlan := none
  nodup : (steps.map StepPlan.name).Nodup := by decide
  called : callable = true → transition = none ∧ onUnresolved = none := by simp

/-- The first flow of a run. -/
inductive StartPlan where
  | flow (name : String)
  | route (route : ConditionalRoutingPlan)

/-- The names of the flows differ. -/
structure WorkflowPlan where
  name : String
  revision : String
  start : StartPlan
  output : Option BindingPlan := none
  flows : List FlowPlan
  nodup : (flows.map FlowPlan.name).Nodup

/-- The flow of a name. -/
def WorkflowPlan.flow? (plan : WorkflowPlan) (name : String) : Option FlowPlan :=
  plan.flows.find? fun flow => flow.name = name

/-- A flow is found by its name. -/
theorem WorkflowPlan.flow?_name {plan : WorkflowPlan} {name : String} {flow : FlowPlan}
    (h : plan.flow? name = some flow) : flow.name = name := by
  have := List.find?_some h
  simpa using this

/-- A flow that is found is one of the plan. -/
theorem WorkflowPlan.flow?_mem {plan : WorkflowPlan} {name : String} {flow : FlowPlan}
    (h : plan.flow? name = some flow) : flow ∈ plan.flows :=
  List.mem_of_find?_eq_some h

/-- Every flow is found under its name. -/
theorem WorkflowPlan.flow?_of_mem {plan : WorkflowPlan} {flow : FlowPlan} (h : flow ∈ plan.flows) :
    plan.flow? flow.name = some flow :=
  Dict.find?_key plan.nodup h

/-- The compared step bindings of every kind. -/
def StepPlan.bindings (step : StepPlan) : Bindings :=
  match step.kind with
  | .decision sources => sources
  | .llm input => input
  | .mcp arguments => arguments
  | .handler input => input
  | .flowCollection items _ _ => [("items", items)]

end Foliqant.Core
