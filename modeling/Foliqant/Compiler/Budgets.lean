import Foliqant.Common.Fallible
import Foliqant.Compiler.Graph

/-!
# The step budget of a workflow

The worst number of steps of one invocation of a flow, through every repeat attempt, retry run and
collection item, and of the most expensive path of a run. The recursions end on an accepted graph;
their fuel bounds the length of a path in it.
-/

namespace Foliqant.Compiler

open Foliqant.Core

/-! ## The analysis -/

/-- Attempts with the own steps and retries with the steps of the retry flow; a collection counts as
one step. -/
def ownWorstSteps (plan : WorkflowPlan) (flow : FlowPlan) : ℕ :=
  match flow.repeatPlan with
  | none => flow.steps.length
  | some rep =>
      let retry := (rep.retryFlow.bind plan.flow?).map fun retry => retry.steps.length
      rep.maxAttempts * flow.steps.length + (rep.maxAttempts - 1) * retry.getD 0

/-- The steps of a repeat: every attempt, and a retry run between two attempts. -/
def attemptsCost : Option RepeatPlan → ℕ → ℕ → ℕ
  | none, own, _ => own
  | some rep, own, retry => rep.maxAttempts * own + (rep.maxAttempts - 1) * retry

section Worst

variable (worst : String → Option ℕ)

/-- The most expensive of some flows. -/
def costliest (flows : List String) : Option ℕ := do
  let costs ← flows.mapM worst
  return costs.foldl max 0

/-- The steps that one step may visit: itself, and every item of a collection. -/
def stepCost (step : StepPlan) : Option ℕ :=
  match step.kind with
  | .flowCollection _ flows maxItems => do
      let child ← costliest worst flows
      return 1 + maxItems * child
  | .decision _ | .llm _ | .mcp _ | .handler _ => some 1

/-- The steps of one execution of some steps. -/
def stepsCost : List StepPlan → Option ℕ
  | [] => some 0
  | step :: rest => do
      let first ← stepCost worst step
      let others ← stepsCost rest
      return first + others

/-- The worst case of a flow's retry. -/
def retryCost (flow : FlowPlan) : Option ℕ :=
  match flow.repeatPlan.bind RepeatPlan.retryFlow with
  | some retry => worst retry
  | none => some 0

end Worst

section Budgets

variable (plan : WorkflowPlan)

/-- The steps one invocation of a flow may visit. -/
def worstSteps : ℕ → String → Option ℕ
  | 0, _ => none
  | fuel + 1, name => do
      let flow ← plan.flow? name
      let own ← stepsCost (worstSteps fuel) flow.steps
      let retry ← retryCost (worstSteps fuel) flow
      return attemptsCost flow.repeatPlan own retry

/-- Fuel for a path through all flows. -/
def pathFuel : ℕ := plan.flows.length + 1

/-- The costlier of two paths. -/
def costlier (best path : ℕ × List String) : ℕ × List String :=
  if best.1 < path.1 then path else best

/-- The first of the most expensive paths. -/
def longest : List (ℕ × List String) → ℕ × List String
  | [] => (0, [])
  | first :: rest => rest.foldl costlier first

variable (graph : Graph)

/-- The flows that a flow routes to. -/
def routeSuccessors (name : String) : List String := (graph.successors.lookup name).getD []

/-- The most expensive routed path from a flow on. -/
def cost : ℕ → String → Option (ℕ × List String)
  | 0, _ => none
  | fuel + 1, name => do
      let tails ← (routeSuccessors graph name).mapM (cost fuel)
      let own ← worstSteps plan (pathFuel plan) name
      return (own + (longest tails).1, name :: (longest tails).2)

/-- Warnings about budgets. -/
inductive Diagnostic where
  | collectionBudget (flow step : String)
  | runBudget (crossing : String)
  deriving DecidableEq

/-- The warning about one collection. -/
def collectionWarning (maxSteps : ℕ) (flow : FlowPlan) (step : StepPlan) :
    Option (List Diagnostic) :=
  match step.kind with
  | .flowCollection _ flows maxItems => do
      let child ← costliest (worstSteps plan (pathFuel plan)) flows
      return if maxItems * child > maxSteps then [.collectionBudget flow.name step.name] else []
  | _ => some []

/-- The warnings about collections. -/
def collectionWarnings (maxSteps : ℕ) : Option (List Diagnostic) := do
  let warnings ← plan.flows.mapM fun flow => flow.steps.mapM (collectionWarning plan maxSteps flow)
  return (warnings.flatten).flatten

/-- The flow of a path at which the running total passes the limit. -/
def crossing (maxSteps : ℕ) (last : String) : ℕ → List String → Option String
  | _, [] => some last
  | running, name :: rest => do
      let own ← worstSteps plan (pathFuel plan) name
      if running + own > maxSteps then return name
      else crossing maxSteps last (running + own) rest

/-- The most expensive path of a run. -/
def runCost : Option (ℕ × List String) := do
  let paths ← (startPaths plan).mapM (cost plan graph (pathFuel plan))
  return longest paths

/-- The warning about whole runs. -/
def runWarnings (maxSteps : ℕ) : Option (List Diagnostic) := do
  let (total, path) ← runCost plan graph
  if total ≤ maxSteps then return []
  else return [.runBudget (← crossing plan maxSteps (path.getLastD "") 0 path)]

/-- The paths are measured only when no collection is too expensive by itself. -/
def budgetDiagnostics (maxSteps : ℕ) : Option (List Diagnostic) := do
  let collections ← collectionWarnings plan maxSteps
  if collections = [] then runWarnings plan graph maxSteps else return collections

/-- A repeated flow must fit into the budget. -/
def checkRepeatBudget (maxSteps : ℕ) (flow : FlowPlan) : Except CompilationError Unit :=
  require (flow.repeatPlan.isNone || ownWorstSteps plan flow ≤ maxSteps) .repeatBudget

/-- Check the repeats and report what may pass the limit; without a limit nothing is checked. The
diagnostics are missing only when a recursion does not end. -/
def validateBudgets (maxSteps : Option ℕ) : Except CompilationError (Option (List Diagnostic)) :=
  match maxSteps with
  | none => .ok (some [])
  | some maxSteps => do
      plan.flows.forM (checkRepeatBudget plan maxSteps)
      return budgetDiagnostics plan graph maxSteps

end Budgets

end Foliqant.Compiler
