import Foliqant.Core.Plan

/-!
# Bindings

Resolve a binding against a context, without coercion or implicit nulls.
-/

namespace Foliqant.Core

open JsonText

/-! ## Pointers -/

/-- A `~` is followed by `0` or `1`. -/
def escapesValid : List Char → Bool
  | [] => true
  | '~' :: '0' :: rest => escapesValid rest
  | '~' :: '1' :: rest => escapesValid rest
  | c :: rest => c != '~' && escapesValid rest

/-- The key a pointer part stands for. -/
def unescapePart : List Char → List Char
  | [] => []
  | '~' :: '0' :: rest => '~' :: unescapePart rest
  | '~' :: '1' :: rest => '/' :: unescapePart rest
  | c :: rest => c :: unescapePart rest

/-- Zero, or digits without a leading zero. -/
def isIndex : List Char → Bool
  | [] => false
  | ['0'] => true
  | first :: rest => isDigit first && first != '0' && rest.all isDigit

/-- The number a list of decimal digits writes. -/
def digitsValue (digits : List Char) : ℕ :=
  digits.foldl (fun value digit => 10 * value + (digit.toNat - 48)) 0

/-- The item of a list that a key selects. -/
def indexItem (items : List Json) (key : List Char) : Option Json :=
  if isIndex key ∧ key.length ≤ (toString items.length).length then items[digitsValue key]?
  else none

/-- One step of a pointer. -/
def child (value : Json) (part : List Char) : Option Json :=
  match value with
  | .obj members => members.lookup (String.ofList (unescapePart part))
  | .arr items => indexItem items (unescapePart part)
  | _ => none

/-- The parts of a pointer after its first slash. -/
def pointerParts (pointer : String) : List (List Char) := pointer.toList.tail.splitOn '/'

/-- The value at a pointer already split into its parts. -/
def lookupParts (value : Json) : List (List Char) → Option Json
  | [] => some value
  | part :: rest => (child value part).bind (lookupParts · rest)

/-- The syntax of a pointer: empty, or parts that each follow a slash. -/
def pointerValid (pointer : String) : Bool :=
  (pointer.toList = [] || pointer.toList.head? = some '/') && escapesValid pointer.toList &&
    (pointer.toList = [] || (pointerParts pointer).length ≤ MAX_JSON_DEPTH)

/-- What a pointer finds; null is found. Invalid syntax is a failure, never "not found". -/
def lookupPointer (pointer : String) (context : Json) : Except Exn (Option Json) :=
  if !pointerValid pointer then fail .invalidConfiguration
  else if pointer.toList = [] then .ok (some context)
  else .ok (lookupParts context (pointerParts pointer))

/-- Look every pointer up; invalid syntax of one fails whatever the others find. -/
def lookupMembers (context : Json) : List String → Except Exn (List (Option Json))
  | [] => .ok []
  | member :: rest => do
      let found ← lookupPointer member context
      let others ← lookupMembers context rest
      return found :: others

/-- `null` counts as absent. -/
def isPresent : Json → Bool
  | .null => false
  | _ => true

/-- The first member that resolves to a value other than null. -/
def firstPresent (candidates : List (Option Json)) : Option Json :=
  candidates.findSome? fun found => found.filter isPresent

/-! ## Bindings -/

/-- The value of a binding that found nothing. -/
def resolveDefault : Option Json → Except Exn Json
  | some value => freezeJson MAX_JSON_DEPTH value
  | none => fail .missingBinding

/-- A found value, or else the default. -/
def resolveFound (found : Option Json) (default : Option Json) : Except Exn Json :=
  match found with
  | some value => .ok value
  | none => resolveDefault default

mutual

/-- `resolve_binding`. -/
def resolveBinding (context : Json) : BindingPlan → Except Exn Json
  | .literal value => freezeJson MAX_JSON_DEPTH value
  | .pointer path default => do resolveFound (← lookupPointer path context) default
  | .firstOf members default =>
      if members = [] then fail .invalidConfiguration
      else do resolveFound (firstPresent (← lookupMembers context members)) default
  | .fields [] => fail .invalidConfiguration
  | .fields (entry :: entries) => do return .obj (← resolveBindingsFrom context [] (entry :: entries))

/-- Resolve the remaining bindings; a repeated name fails. -/
def resolveBindingsFrom (context : Json) (values : Object) : Bindings → Except Exn Object
  | [] => .ok values
  | (name, binding) :: rest =>
      if name ∈ Dict.keys values then fail .invalidConfiguration
      else do
        let value ← resolveBinding context binding
        resolveBindingsFrom context (values ++ [(name, value)]) rest

end

/-- The object of a list of named bindings. -/
def resolveBindings (bindings : Bindings) (context : Json) : Except Exn Object :=
  resolveBindingsFrom context [] bindings

/-- The value of the source of a condition; null counts as absent. -/
def resolveSource (binding : BindingPlan) (context : Json) : Except Exn (Option Json) :=
  match binding with
  | .literal value => do return some (← freezeJson MAX_JSON_DEPTH value) |>.filter isPresent
  | .pointer path none => do return firstPresent [← lookupPointer path context]
  | .firstOf members none =>
      if members = [] then fail .invalidConfiguration
      else do return firstPresent (← lookupMembers context members)
  | _ => fail .invalidConfiguration

end Foliqant.Core
