import Foliqant.Compiler.Graph

/-!
# The bindings of steps

The checks on the pointers that the bindings and the guard of a step read: the roots a flow knows, the
steps that run before, the record fields of a step that may be skipped, and paths that no value can
have.
-/

namespace Foliqant.Compiler

open Foliqant.Core

/-- Why the bindings of a flow are rejected. -/
inductive BindingError where
  | danglingPointer | unavailableStepReference
  deriving DecidableEq

/-- The word for an error. -/
def BindingError.reason : BindingError → String
  | .danglingPointer => "dangling_pointer"
  | .unavailableStepReference => "unavailable_step_reference"

/-- Fail unless a condition on the bindings holds. -/
def demand (condition : Bool) (error : BindingError) : Except BindingError Unit :=
  if condition then .ok () else .error error

/-- A demand passes when it holds. -/
theorem demand_eq_ok {condition : Bool} {error : BindingError} {u : Unit} :
    demand condition error = .ok u ↔ condition = true := by
  cases condition <;> simp [demand]

/-! ## Pointers -/

/-- What bindings inside a flow may read. -/
def flowRoots : List (List Char) := ["payload".toList, "metadata".toList, "steps".toList]

/-- The step that a pointer reads. -/
def stepReference (pointer : String) : Option String :=
  match pointer.toList.splitOn '/' with
  | _ :: root :: name :: _ =>
      if root = "steps".toList then some (String.ofList (unescapePart name)) else none
  | _ => none

/-- A pointer reads a known root, and only declared steps. -/
def flowPointerCheck (steps : List StepPlan) (pointer : String) : Except BindingError Unit := do
  demand (pointer.toList = [] ||
    (((pointer.toList.splitOn '/')[1]?).map fun root => decide (root ∈ flowRoots)).getD false)
    .danglingPointer
  demand (((stepReference pointer).map fun name => decide (name ∈ steps.map StepPlan.name)).getD true)
    .danglingPointer

/-- The step of a name. -/
def findStep (steps : List StepPlan) (name : String) : Option StepPlan :=
  steps.find? fun step => step.name = name

/-- A step of the host. -/
def isHandler (step : StepPlan) : Bool :=
  match step.kind with
  | .handler _ => true
  | _ => false

/-- A record field present only for some outcomes: the selection of a handler. -/
def optionalRecordField (steps : List StepPlan) (pointer : String) : Bool :=
  match tokens pointer with
  | _ :: name :: field :: _ =>
      decide (field = "selection") && ((findStep steps name).map isHandler).getD false
  | _ => false

/-- A required step pointer needs an earlier step; a conditional one only its status. -/
def stepAvailable (steps : List StepPlan) (prior conditional : List String) (pointer : String) :
    Bool :=
  match stepReference pointer with
  | none => true
  | some reference =>
      if reference ∉ prior then false
      else if reference ∈ conditional then
        match tokens pointer with
        | [_, _] => true
        | [_, _, field] => decide (field = "status")
        | _ => false
      else !optionalRecordField steps pointer

/-! ## Bindings -/

section Require

variable (check : String → Except BindingError Unit) (available : String → Bool)

mutual

/-- Check every pointer; a binding without default needs an available source. -/
def requireBinding : BindingPlan → Except BindingError Unit
  | .literal _ => .ok ()
  | .fields entries => requireBindings entries
  | .pointer path default => do
      check path
      demand (default.isSome || available path) .unavailableStepReference
  | .firstOf members default => do
      members.forM check
      demand (default.isSome || members.any available) .unavailableStepReference

/-- Required bindings, one after the other. -/
def requireBindings : Bindings → Except BindingError Unit
  | [] => .ok ()
  | (_, binding) :: rest => do
      requireBinding binding
      requireBindings rest

end

end Require

mutual

/-- Every pointer a condition reads, in authored order. -/
def conditionPointers : ConditionPlan → List String
  | .leaf leaf =>
      match leaf.source with
      | .pointer path _ => [path]
      | .firstOf members _ => members
      | _ => []
  | .all operands => conditionsPointers operands
  | .any operands => conditionsPointers operands
  | .not operand => conditionPointers operand

/-- The pointers of conditions. -/
def conditionsPointers : List ConditionPlan → List String
  | [] => []
  | operand :: rest => conditionPointers operand ++ conditionsPointers rest

end

section Steps

variable (steps : List StepPlan)

/-- The guard of a step reads no later step. -/
def checkGuard (prior : List String) (guard : ConditionPlan) : Except BindingError Unit :=
  (conditionPointers guard).forM fun pointer => do
    flowPointerCheck steps pointer
    demand (((stepReference pointer).map fun name => decide (name ∈ prior)).getD true)
      .unavailableStepReference

/-- What a step reads is there before it. -/
def validateStep (prior conditional : List String) (step : StepPlan) : Except BindingError Unit := do
  requireBindings (flowPointerCheck steps) (stepAvailable steps prior conditional) step.bindings
  match step.guard with
  | none => .ok ()
  | some guard => checkGuard steps prior guard

/-- The steps that may be skipped. -/
def conditionalSteps : List String :=
  (steps.filter fun step => step.guard.isSome).map StepPlan.name

/-- Check the remaining steps after the prior ones. -/
def validateSteps (conditional : List String) :
    List String → List StepPlan → Except BindingError Unit
  | _, [] => .ok ()
  | prior, step :: rest => do
      validateStep steps prior conditional step
      validateSteps conditional (prior ++ [step.name]) rest

/-- Check the bindings and the guards of a flow. -/
def validateBindings : Except BindingError Unit :=
  validateSteps steps (conditionalSteps steps) [] steps

/-! ## Impossible paths -/

/-- A path below the selection of a step record. -/
def selectionPossible : List String → Bool
  | [] | ["origin"] | ["category"] | ["category", "id"] | ["category", "description"] => true
  | _ => false

variable (choice : StepPlan → Bool) (schema : String → Bool)

/-- A decision that asks a single choice question, as `choice` tells of decisions. -/
def isSingleChoice (step : StepPlan) : Bool :=
  match step.kind with
  | .decision _ => choice step
  | _ => false

/-- A path below the record of a step, other than its result, that a value can have. -/
def recordPossible (step : StepPlan) : List String → Bool
  | [] => true
  | field :: below =>
      if field = "status" then decide (below = [])
      else if field = "kind" then step.kind.isCollection && decide (below = [])
      else if field = "selection" then (isHandler step || isSingleChoice choice step) &&
      selectionPossible below
      else false

/-- A pointer that some value can have. `schema` decides below the payload and the results, by the
schemas that are known for them. -/
def pointerPossible (pointer : String) : Bool :=
  match tokens pointer with
  | "steps" :: name :: below =>
      match findStep steps name with
      | none => false
      | some step =>
          if below.head? = some "result" then schema pointer else recordPossible choice step below
  | ["steps"] | [] => true
  | _ => schema pointer

mutual

/-- A binding without default that some value can satisfy. -/
def bindingPossible : BindingPlan → Bool
  | .literal _ => true
  | .fields entries => bindingsPossible entries
  | .pointer path default => default.isSome || pointerPossible steps choice schema path
  | .firstOf members default =>
      default.isSome || members.any (pointerPossible steps choice schema)

/-- Bindings may have data. -/
def bindingsPossible : Bindings → Bool
  | [] => true
  | (_, binding) :: rest => bindingPossible binding && bindingsPossible rest

end

/-- Reject a binding whose path no value can have. -/
def validateSchemaBindings : Except BindingError Unit :=
  steps.forM fun step =>
    demand (bindingsPossible steps choice schema step.bindings) .danglingPointer

end Steps

end Foliqant.Compiler
