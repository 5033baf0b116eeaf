import Mathlib.Data.Finset.Sort
import Mathlib.Data.String.Basic
import Foliqant.Compiler.Graph
import Foliqant.Core.Conditions

/-!
# Static values and static verdicts

What a pointer may resolve to at run time, as far as schemas, literals, defaults and projections tell,
and the checks of conditions and conditional routes against it. Unknown schemas stay unknown.
-/

namespace Foliqant.Compiler

open Foliqant.Core JsonText

/-! ## Schema nodes -/

/-- A schema node with its local reference context. -/
structure SchemaView where
  node : Json
  root : Object
  path : String

/-- The schema resources of a workflow: the node that a reference at a node selects, if any. A chain of
more references than the resources have nodes runs in a circle. -/
structure SchemaResources where
  refer : SchemaView → String → Option SchemaView
  nodes : ℕ

/-- A schema about which nothing is known. -/
def SchemaView.unknown (view : SchemaView) : SchemaView := { view with node := .obj [] }

/-- The value of a keyword of a schema object. -/
def keyword (node : Json) (name : String) : Option Json :=
  match node with
  | .obj members => members.lookup name
  | _ => none

/-- Follow references for so many steps. -/
def followReferences (resources : SchemaResources) : ℕ → SchemaView → SchemaView
  | 0, view => view.unknown
  | steps + 1, view =>
      match keyword view.node "$ref" with
      | some (.str reference) =>
          match resources.refer view reference with
          | some target => followReferences resources steps target
          | none => view.unknown
      | _ => view

/-- The schema that a reference leads to. -/
def SchemaView.resolved (resources : SchemaResources) (view : SchemaView) : SchemaView :=
  followReferences resources (resources.nodes + 1) view

/-- The type of a value. -/
def jsonType : Json → String
  | .null => "null"
  | .bool _ => "boolean"
  | .str _ => "string"
  | .int _ => "integer"
  | .float _ => "number"
  | .obj _ => "object"
  | .arr _ => "array"

/-- The text, if the value is one. -/
def Json.text? : Json → Option String
  | .str text => some text
  | _ => none

/-- The declared types of a node. -/
def schemaTypes (resources : SchemaResources) (view : SchemaView) : Option (List String) :=
  let node := (view.resolved resources).node
  match keyword node "type", keyword node "const", keyword node "enum" with
  | some (.str declared), _, _ => some [declared]
  | some (.arr declared), _, _ => some (declared.filterMap Json.text?)
  | _, some value, _ => some [jsonType value]
  | _, none, some (.arr values) => some (values.map jsonType)
  | _, _, _ => none

/-- Disjoint sets of types; an integer is a number. -/
def incompatibleTypes (source target : Option (List String)) : Bool :=
  match source, target with
  | some source, some target =>
      let widened (kinds : List String) := if "number" ∈ kinds then "integer" :: kinds else kinds
      !(widened source).any (· ∈ widened target)
  | _, _ => false

/-! ## Static values -/

mutual

/-- A schema node, an authored constant, a projected object, or an array of repeat attempts. -/
inductive Alternative where
  | view (view : SchemaView)
  | const (value : Json)
  | obj (fields : List (String × Static))
  | arr (items : Static)

/-- The union of the alternatives a pointer may resolve to; `absent` when the value may be missing,
`missing` when it may be missing whatever the data. -/
structure Static where
  alternatives : List Alternative
  absent : Bool := false
  missing : Bool := false

end

/-- The path cannot hold any value. -/
def Static.impossible (static : Static) : Bool := static.alternatives.isEmpty

/-- Values that are there. -/
def Static.of (alternatives : List Alternative) : Static := { alternatives := alternatives }

/-- Several values, one of which it is. -/
def union (items : List Static) (absent : Option Bool) : Static where
  alternatives := items.flatMap Static.alternatives
  absent := absent.getD (items.any Static.absent)
  missing := items.any Static.missing

/-- How deep choices are expanded. -/
def MAX_EXPANSION : ℕ := 8

/-- The branches of a node that is nothing but a choice. -/
def choice (node : Json) : Option (List Json) :=
  match (keyword node "anyOf").or (keyword node "oneOf") with
  | some (.arr branches) =>
      if branches = [] ∨ ["properties", "items", "allOf", "not", "if"].any
          fun name => (keyword node name).isSome then none
      else some branches
  | _ => none

/-- Split `anyOf` and `oneOf` applicators into their branches, some levels deep. -/
def expand (resources : SchemaResources) : ℕ → SchemaView → List SchemaView
  | 0, view => [view.resolved resources]
  | levels + 1, view =>
      let resolved := view.resolved resources
      match choice resolved.node with
      | some branches =>
          branches.flatMap fun branch => expand resources levels { resolved with node := branch }
      | none => [resolved]

/-- The choices of an alternative. -/
def Alternative.expanded (resources : SchemaResources) : Alternative → List Alternative
  | .view schema => (expand resources MAX_EXPANSION schema).map .view
  | alternative => [alternative]

/-- The choices of a value. -/
def Static.expanded (resources : SchemaResources) (static : Static) : List Alternative :=
  static.alternatives.flatMap (Alternative.expanded resources)

/-- The types that an alternative may have. -/
def Alternative.types (resources : SchemaResources) : Alternative → Option (List String)
  | .view schema => schemaTypes resources schema
  | .const value => some [jsonType value]
  | .obj _ => some ["object"]
  | .arr _ => some ["array"]

/-- The types of the present values; none when an alternative is unknown. -/
def types (resources : SchemaResources) (static : Static) : Option (List String) :=
  ((static.expanded resources).mapM (Alternative.types resources)).map List.flatten

/-! ## Keys of values -/

/-- The members of an object in the order of their keys. -/
def sortMembers {F : Type} (members : List (String × Value F)) : List (String × Value F) :=
  ((Dict.keys members).toFinset.sort (· ≤ ·)).filterMap fun key =>
    (members.lookup key).map fun value => (key, value)

mutual

/-- Numbers compare by value at run time and booleans stay distinct; the writer sorts the members. -/
def canonical : Json → Json
  | .float x => if x.isInt then .int x.num else .float x
  | .arr items => .arr (canonicalItems items)
  | .obj members => .obj (sortMembers (canonicalMembers members))
  | value => value

/-- The canonical items. -/
def canonicalItems : List Json → List Json
  | [] => []
  | item :: rest => canonical item :: canonicalItems rest

/-- The canonical members. -/
def canonicalMembers : Object → Object
  | [] => []
  | (key, value) :: rest => (key, canonical value) :: canonicalMembers rest

end

/-- A character of a string; only what JSON requires is escaped. -/
def keyChar (c : Char) : List Char := if 127 ≤ c.toNat then [c] else escapeChar c

/-- The key of a text. -/
def keyString (text : String) : List Char := '"' :: (text.toList.flatMap keyChar ++ ['"'])

section Texts

-- The shortest text of a float.
variable {F : Type} (repr : F → String)

mutual

/-- The compact text of a value. -/
def dumps : Value F → List Char
  | .null => "null".toList
  | .bool true => "true".toList
  | .bool false => "false".toList
  | .int n => (Number.ofInt n).text
  | .float x => (repr x).toList
  | .str text => keyString text
  | .arr items => '[' :: dumpItems true items
  | .obj members => '\x7b' :: dumpMembers true members

/-- The items of an array and the closing bracket. -/
def dumpItems (first : Bool) : List (Value F) → List Char
  | [] => [']']
  | item :: rest => (if first then [] else [',']) ++ (dumps item ++ dumpItems false rest)

/-- The members of an object and the closing brace. -/
def dumpMembers (first : Bool) : List (String × Value F) → List Char
  | [] => ['\x7d']
  | (key, value) :: rest =>
      (if first then [] else [',']) ++
        (keyString key ++ ':' :: (dumps value ++ dumpMembers false rest))

end

end Texts

section Keys

-- The shortest text of a float.
variable (repr : ℚ → String)

/-- The key that compares authored values with allowed values. -/
def jsonKey (value : Json) : String := String.ofList (dumps repr (canonical value))

/-- The values that one alternative allows by their keys. -/
def Alternative.values (resources : SchemaResources) : Alternative → Option (List (String × Json))
  | .const value => some [(jsonKey repr value, value)]
  | .view schema =>
      let node := (schema.resolved resources).node
      match keyword node "const", keyword node "enum", keyword node "type" with
      | some value, _, _ => some [(jsonKey repr value, value)]
      | none, some (.arr values), _ => some (values.map fun value => (jsonKey repr value, value))
      | none, _, some (.str "boolean") => some [("true", .bool true), ("false", .bool false)]
      | none, _, some (.str "null") => some [("null", .null)]
      | none, _, _ => none
  | .obj _ | .arr _ => none

/-- Every allowed present value by its key; none when they cannot be enumerated. -/
def values (resources : SchemaResources) (static : Static) : Option (List (String × Json)) :=
  ((static.expanded resources).mapM (Alternative.values repr resources)).map fun parts =>
    Dict.ofList parts.flatten

end Keys

/-! ## Verdicts -/

/-- Why a condition of a route is refused. -/
inductive ScopeError where
  | danglingPointer
  | conditionTypeMismatch
  | invalidFlowReference
  | unavailableFlowReference
  deriving DecidableEq

/-- The word for an error. -/
def ScopeError.reason : ScopeError → String
  | .danglingPointer => "dangling_pointer"
  | .conditionTypeMismatch => "condition_type_mismatch"
  | .invalidFlowReference => "invalid_flow_reference"
  | .unavailableFlowReference => "unavailable_flow_reference"

mutual

/-- Every leaf in authored order. -/
def conditionLeaves : ConditionPlan → List LeafConditionPlan
  | .leaf condition => [condition]
  | .all operands | .any operands => leavesOf operands
  | .not operand => conditionLeaves operand

/-- The leaves of conditions. -/
def leavesOf : List ConditionPlan → List LeafConditionPlan
  | [] => []
  | operand :: rest => conditionLeaves operand ++ leavesOf rest

end

section Checks

variable (repr : ℚ → String) (resources : SchemaResources) (resolve : String → Static)

/-- What a source may be. -/
def sourceStatic : BindingPlan → Static
  | .literal value => .of [.const value]
  | .pointer pointer _ => resolve pointer
  | .firstOf members _ => union (members.map resolve) (some true)
  | .fields _ => resolve ""

/-- Whether an operator holds of equal values. -/
def ConditionOperator.positive : ConditionOperator → Option Bool
  | .equals | .isIn => some true
  | .notEquals | .notIn => some false
  | _ => none

/-- The values that a leaf compares with. -/
def leafOperands (leaf : LeafConditionPlan) : List Json :=
  match leaf.operator, leaf.operand with
  | .isIn, .arr items | .notIn, .arr items => items
  | _, operand => [operand]

/-- The truth of an equality or a membership for the values that can be enumerated. A strict verdict
holds for present and absent values alike, another one for every present value only. -/
def verdict (leaf : LeafConditionPlan) (static : Static) : Option Bool × Bool :=
  match values repr resources static, ConditionOperator.positive leaf.operator with
  | some (entry :: rest), some positive =>
      let operands := leafOperands leaf
      if operands.any (jsonType · = "null") then (none, false)
      else
        let keys := operands.map (jsonKey repr)
        let allowed := Dict.keys (entry :: rest)
        -- No present value matches, and absence never equals an operand that is not null.
        if !keys.any (· ∈ allowed) then (some !positive, true)
        else if allowed.all (· ∈ keys) then (some positive, false)
        else (none, false)
  | _, _ => (none, false)

/-- The types that an operator can compare. -/
def expectedTypes : ConditionOperator → Option (List String)
  | .gt | .gte | .lt | .lte => some ["number"]
  | .matches => some ["string"]
  | .length => some ["string", "array", "object"]
  | _ => none

/-- The operands of an equality or a membership that must have a possible type. -/
def comparedOperands (leaf : LeafConditionPlan) : List Json :=
  match ConditionOperator.positive leaf.operator, leaf.operand with
  | some _, .arr items => items
  | some _, operand => [operand]
  | none, _ => []

/-- A literal source. -/
def isLiteral : BindingPlan → Bool
  | .literal _ => true
  | _ => false

/-- Reject an impossible pointer and a comparison that cannot be made. -/
def checkLeaf (leaf : LeafConditionPlan) : Except ScopeError Unit :=
  let static := sourceStatic resolve leaf.source
  let kinds := types resources static
  if !isLiteral leaf.source && static.impossible then .error .danglingPointer
  else if incompatibleTypes kinds (expectedTypes leaf.operator) then .error .conditionTypeMismatch
  else if (comparedOperands leaf).any fun item =>
      jsonType item ≠ "null" && incompatibleTypes kinds (some [jsonType item]) then
    .error .conditionTypeMismatch
  else .ok ()

/-- The strict verdict of a leaf. -/
def leafVerdictOf (leaf : LeafConditionPlan) : Option Bool :=
  match verdict repr resources leaf (sourceStatic resolve leaf.source) with
  | (said, true) => said
  | (_, false) => none

mutual

/-- The verdict about a condition from those about its leaves. -/
def combine (verdicts : LeafConditionPlan → Option Bool) : ConditionPlan → Option Bool
  | .leaf condition => verdicts condition
  | .not operand => (combine verdicts operand).map fun value => !value
  | .all operands =>
      let results := combineAll verdicts operands
      if results.any (· == some false) then some false
      else if results.all (· == some true) then some true
      else none
  | .any operands =>
      let results := combineAll verdicts operands
      if results.any (· == some true) then some true
      else if results.all (· == some false) then some false
      else none

/-- The verdicts about conditions. -/
def combineAll (verdicts : LeafConditionPlan → Option Bool) : List ConditionPlan → List (Option Bool)
  | [] => []
  | operand :: rest => combine verdicts operand :: combineAll verdicts rest

end

/-- Check every leaf; the result is the static truth of the whole condition, none when it depends on
data. -/
def checkCondition (condition : ConditionPlan) : Except ScopeError (Option Bool) := do
  (conditionLeaves condition).forM (checkLeaf resources resolve)
  return combine (leafVerdictOf repr resources resolve) condition

end Checks

end Foliqant.Compiler
