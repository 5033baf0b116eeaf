import Foliqant.Common.Formula
import Foliqant.Compiler.Patterns
import Foliqant.Core.Conditions

/-!
# Authored conditions and bindings

The closed language of conditions and bindings as the contracts of an authored workflow admit it, and
their compilation. What a contract bounds is part of the authored value.
-/

namespace Foliqant.Compiler

open Foliqant.Core

/-! ## Contracts -/

/-- Nesting of combinators and leaves, counting the leaf itself. -/
def MAX_CONDITION_DEPTH : ℕ := 8

/-- How many operands a condition may have. -/
def MAX_CONDITION_OPERANDS : ℕ := 32

/-- How many values a list of values may have. -/
def MAX_IN_VALUES : ℕ := 64

/-- How long a pattern may be. -/
def MAX_PATTERN_LENGTH : ℕ := 256

/-- The pattern of a pointer: parts that each follow a slash, with valid escapes. -/
def isJsonPointer (text : String) : Bool :=
  (text.toList = [] || text.toList.head? = some '/') && escapesValid text.toList

/-- Texts that are pointers. -/
abbrev JsonPointer := { text : String // isJsonPointer text = true }

/-- One to sixteen candidates. -/
structure Candidates where
  members : List JsonPointer
  bounded : 1 ≤ members.length ∧ members.length ≤ 16

/-- The pointers of candidates. -/
def Candidates.pointers (candidates : Candidates) : List String := candidates.members.map Subtype.val

/-- `binding` or `literal`. -/
inductive ConditionSource where
  | literal (value : Json)
  | pointer (pointer : JsonPointer)
  | firstOf (candidates : Candidates)

/-- An integer or a finite float; a boolean is no number. -/
inductive JsonNumber where
  | int (value : ℤ)
  | float (value : ℚ)

/-- The JSON of a number. -/
def JsonNumber.json : JsonNumber → Json
  | .int value => .int value
  | .float value => .float value

/-- One to sixty-four values. -/
structure InValues where
  values : List Json
  bounded : 1 ≤ values.length ∧ values.length ≤ MAX_IN_VALUES

/-- Exactly one operator with its operand. -/
inductive AuthoredOperator where
  | present (operand : Bool)
  | empty (operand : Bool)
  | equals (operand : Json)
  | notEquals (operand : Json)
  | isIn (operand : InValues)
  | notIn (operand : InValues)
  | gt (operand : JsonNumber)
  | gte (operand : JsonNumber)
  | lt (operand : JsonNumber)
  | lte (operand : JsonNumber)
  | matches (pattern : String) (bounded : 1 ≤ pattern.length ∧ pattern.length ≤ MAX_PATTERN_LENGTH)
  | length (comparison : Comparison) (count : ℕ) (bounded : count ≤ 2 ^ 31 - 1)

/-- A condition on one value. -/
structure LeafCondition where
  source : ConditionSource
  operator : AuthoredOperator

/-- A condition as it is authored. -/
inductive AuthoredCondition where
  | leaf (condition : LeafCondition)
  | all (operands : List AuthoredCondition)
  | any (operands : List AuthoredCondition)
  | not (operand : AuthoredCondition)

mutual

/-- The nesting depth; a leaf has depth one. -/
def conditionDepth : AuthoredCondition → ℕ
  | .leaf _ => 1
  | .all operands | .any operands => 1 + operandsDepth operands
  | .not operand => 1 + conditionDepth operand

/-- How deep operands nest. -/
def operandsDepth : List AuthoredCondition → ℕ
  | [] => 0
  | operand :: rest => max (conditionDepth operand) (operandsDepth rest)

end

mutual

/-- Combinators have one to thirty-two operands and conditions nest at most eight levels. -/
def AuthoredCondition.Admitted : AuthoredCondition → Prop
  | .leaf _ => True
  | .all operands =>
      (1 ≤ operands.length ∧ operands.length ≤ MAX_CONDITION_OPERANDS) ∧ OperandsAdmitted operands ∧
        1 + operandsDepth operands ≤ MAX_CONDITION_DEPTH
  | .any operands =>
      (1 ≤ operands.length ∧ operands.length ≤ MAX_CONDITION_OPERANDS) ∧ OperandsAdmitted operands ∧
        1 + operandsDepth operands ≤ MAX_CONDITION_DEPTH
  | .not operand => operand.Admitted ∧ 1 + conditionDepth operand ≤ MAX_CONDITION_DEPTH

/-- Operands within their bounds. -/
def OperandsAdmitted : List AuthoredCondition → Prop
  | [] => True
  | operand :: rest => operand.Admitted ∧ OperandsAdmitted rest

end

/-- A binding of an input; it is optional exactly when it has a default. -/
inductive AuthoredBinding where
  | pointer (pointer : JsonPointer) (default : Option Json)
  | firstOf (candidates : Candidates) (default : Option Json)
  | literal (value : Json)

/-- The fields of a projected object, one to a hundred and twenty-eight with different names. -/
structure ObjectOutput where
  fields : List (String × AuthoredBinding)
  bounded : 1 ≤ fields.length ∧ fields.length ≤ 128
  names : (Dict.keys fields).Nodup

/-- An output as it is authored. -/
inductive OutputBinding where
  | binding (binding : AuthoredBinding)
  | object (output : ObjectOutput)

/-! ## Compilation -/

/-- Why a condition is refused. -/
inductive ConditionError where
  | invalidCondition
  | unsafePattern (error : UnsafePatternError)

/-- Freeze an authored value. -/
def freezeAuthored (value : Json) : Except ConditionError Json :=
  (freezeJson MAX_JSON_DEPTH value).mapError fun _ => .invalidCondition

/-- The source of a condition. -/
def compileSource : ConditionSource → Except ConditionError BindingPlan
  | .literal value => do return .literal (← freezeAuthored value)
  | .pointer pointer => .ok (.pointer pointer.val none)
  | .firstOf candidates => .ok (.firstOf candidates.pointers none)

section Compile

-- The parser of regular expressions and the folding of its characters.
variable (parse : String → Option Pattern) (casefold : ℕ → List ℕ)

/-- The operator of a condition with its operand. -/
def compileOperator (source : BindingPlan) :
    AuthoredOperator → Except ConditionError LeafConditionPlan
  | .present operand => .ok { source := source, operator := .present, operand := .bool operand }
  | .empty operand => .ok { source := source, operator := .empty, operand := .bool operand }
  | .equals operand => do
      return { source := source, operator := .equals, operand := ← freezeAuthored operand }
  | .notEquals operand => do
      return { source := source, operator := .notEquals, operand := ← freezeAuthored operand }
  | .isIn operand => do
      return { source := source, operator := .isIn, operand := ← freezeAuthored (.arr operand.values) }
  | .notIn operand => do
      return { source := source, operator := .notIn, operand := ← freezeAuthored (.arr operand.values) }
  | .gt operand => .ok { source := source, operator := .gt, operand := operand.json }
  | .gte operand => .ok { source := source, operator := .gte, operand := operand.json }
  | .lt operand => .ok { source := source, operator := .lt, operand := operand.json }
  | .lte operand => .ok { source := source, operator := .lte, operand := operand.json }
  | .matches pattern _ => do
      (checkPattern casefold ((parse pattern).map Pattern.items)).mapError .unsafePattern
      return { source := source, operator := .matches, operand := .str pattern, pattern := parse pattern }
  | .length comparison count _ =>
      .ok
        { source := source
          operator := .length
          operand := .int count
          comparison := some comparison }

mutual

/-- A condition. -/
def compileCondition : AuthoredCondition → Except ConditionError ConditionPlan
  | .leaf condition => do
      let source ← compileSource condition.source
      return .leaf (← compileOperator parse casefold source condition.operator)
  | .all operands => do return .all (← compileConditions operands)
  | .any operands => do return .any (← compileConditions operands)
  | .not operand => do return .not (← compileCondition operand)

/-- Several conditions. -/
def compileConditions : List AuthoredCondition → Except ConditionError (List ConditionPlan)
  | [] => .ok []
  | operand :: rest => do
      let first ← compileCondition operand
      return first :: (← compileConditions rest)

end

end Compile

/-- A default that is not too deep. -/
def freezeDefault : Option Json → Except Exn (Option Json)
  | none => .ok none
  | some value => do return some (← freezeJson MAX_JSON_DEPTH value)

/-- A binding. -/
def compileBinding : AuthoredBinding → Except Exn BindingPlan
  | .literal value => do return .literal (← freezeJson MAX_JSON_DEPTH value)
  | .pointer pointer default => do return .pointer pointer.val (← freezeDefault default)
  | .firstOf candidates default => do return .firstOf candidates.pointers (← freezeDefault default)

/-- The bindings of fields. -/
def compileFields : List (String × AuthoredBinding) → Except Exn Bindings
  | [] => .ok []
  | (name, binding) :: rest => do
      let plan ← compileBinding binding
      return (name, plan) :: (← compileFields rest)

/-- An output. -/
def compileOutput : OutputBinding → Except Exn BindingPlan
  | .binding binding => compileBinding binding
  | .object output => do return .fields (← compileFields output.fields)

end Foliqant.Compiler
