import Foliqant.Core.Bindings

/-!
# Conditions

Evaluate a compiled condition over a context. Evaluation never fails for data: an absent value and a
value of an incompatible type have a defined result for every operator. Only a malformed plan fails.
-/

namespace Foliqant.Core

open JsonText Compiler

/-- The number a JSON value holds, a boolean being none. -/
def Json.number? : Json → Option ℚ
  | .int n => some n
  | .float x => some x
  | _ => none

/-- The number of characters, items or members. -/
def Json.length? : Json → Option ℕ
  | .str text => some text.length
  | .arr items => some items.length
  | .obj members => some members.length
  | _ => none

mutual

/-- Equality without coercion; numbers compare by value. -/
def jsonEqual : Json → Json → Bool
  | .null, .null => true
  | .bool a, .bool b => a = b
  | .int a, .int b => a = b
  | .int a, .float b => a = b
  | .float a, .int b => a = b
  | .float a, .float b => a = b
  | .str a, .str b => a = b
  | .arr as, .arr bs => itemsEqual as bs
  | .obj as, .obj bs => (Dict.keys bs).all (· ∈ Dict.keys as) && membersEqual as bs
  | _, _ => false

/-- Lists are equal item by item. -/
def itemsEqual : List Json → List Json → Bool
  | [], [] => true
  | a :: as, b :: bs => jsonEqual a b && itemsEqual as bs
  | _, _ => false

/-- Every member is one of the other object. -/
def membersEqual : Object → Object → Bool
  | [], _ => true
  | (key, a) :: as, bs =>
      (match bs.lookup key with
        | some b => jsonEqual a b
        | none => false) && membersEqual as bs

end

/-- The four orderings and equality on numbers. -/
def Comparison.compare : Comparison → ℚ → ℚ → Bool
  | .gt, value, operand => operand < value
  | .gte, value, operand => operand ≤ value
  | .lt, value, operand => value < operand
  | .lte, value, operand => value ≤ operand
  | .equals, value, operand => value = operand

/-- The whole text matches. -/
def Pattern.fullmatch (tables : CharTables) (pattern : Pattern) (value : String) : Bool :=
  let text := value.toList.map Char.toNat
  (sequenceEnds tables text pattern.flags pattern.items ⟨0, [], Nat.zero_le _⟩).any
    fun s => s.pos = text.length

/-- An absent value, an empty string or an empty container. -/
def isEmpty : Option Json → Bool
  | none => true
  | some (.str text) => text = ""
  | some (.arr items) => items.isEmpty
  | some (.obj members) => members.isEmpty
  | some _ => false

/-- A numeric comparison; a value that is no number is not comparable. -/
def compareLeaf (comparison : Comparison) (operand : Json) (value : Option Json) :
    Except Exn Bool :=
  match operand.number? with
  | none => fail .invalidConfiguration
  | some operand => .ok <|
      match value.bind Json.number? with
      | some value => comparison.compare value operand
      | none => false

/-- The comparisons that need a boolean operand. -/
def flagLeaf (flag : Bool) : Json → Except Exn Bool
  | .bool operand => .ok (flag == operand)
  | _ => fail .invalidConfiguration

/-- Membership in the operand; an absent value is null. -/
def memberLeaf (value : Option Json) : Json → Except Exn Bool
  | .arr [] => fail .invalidConfiguration
  | .arr items => .ok (items.any (jsonEqual (value.getD .null)))
  | _ => fail .invalidConfiguration

/-- `_leaf`. -/
def evaluateLeaf (tables : CharTables) (leaf : LeafConditionPlan) (context : Json) :
    Except Exn Bool := do
  let value ← resolveSource leaf.source context
  match leaf.operator with
  | .present => flagLeaf value.isSome leaf.operand
  | .empty => flagLeaf (isEmpty value) leaf.operand
  | .equals => return jsonEqual (value.getD .null) leaf.operand
  | .notEquals => return !jsonEqual (value.getD .null) leaf.operand
  | .isIn => memberLeaf value leaf.operand
  | .notIn => do return !(← memberLeaf value leaf.operand)
  | .gt => compareLeaf .gt leaf.operand value
  | .gte => compareLeaf .gte leaf.operand value
  | .lt => compareLeaf .lt leaf.operand value
  | .lte => compareLeaf .lte leaf.operand value
  | .matches =>
      match leaf.pattern, leaf.operand with
      | some pattern, .str _ => return match value with
          | some (.str text) => text.length ≤ MAX_MATCH_LENGTH && pattern.fullmatch tables text
          | _ => false
      | _, _ => fail .invalidConfiguration
  | .length =>
      match leaf.comparison, leaf.operand with
      | some comparison, .int operand => return match value.bind Json.length? with
          | some length => comparison.compare length operand
          | none => false
      | _, _ => fail .invalidConfiguration

mutual

/-- `all` and `any` stop at the first operand that decides. -/
def evaluateCondition (tables : CharTables) (context : Json) : ConditionPlan → Except Exn Bool
  | .leaf leaf => evaluateLeaf tables leaf context
  | .all [] => fail .invalidConfiguration
  | .all (operand :: rest) => evaluateAll tables context (operand :: rest)
  | .any [] => fail .invalidConfiguration
  | .any (operand :: rest) => evaluateAny tables context (operand :: rest)
  | .not operand => do return !(← evaluateCondition tables context operand)

/-- `all`, ending at the first operand that is false. -/
def evaluateAll (tables : CharTables) (context : Json) : List ConditionPlan → Except Exn Bool
  | [] => .ok true
  | operand :: rest => do
      if ← evaluateCondition tables context operand then evaluateAll tables context rest
      else return false

/-- `any`, ending at the first operand that is true. -/
def evaluateAny (tables : CharTables) (context : Json) : List ConditionPlan → Except Exn Bool
  | [] => .ok false
  | operand :: rest => do
      if ← evaluateCondition tables context operand then return true
      else evaluateAny tables context rest

end

end Foliqant.Core
