import Foliqant.Compiler.StaticValues
import Foliqant.Core.Pointers

/-!
# Static navigation

Select the tokens of a pointer in a static value. A constant is navigated as the runtime looks pointers
up, except that an index of an array is parsed before it is compared, and the interpreter refuses to
parse long digit runs.
-/

namespace Foliqant.Compiler

open Foliqant.Core JsonText

/-- The longest digit run that the interpreter parses as an integer. -/
def MAX_INT_DIGITS : ℕ := 4300

/-- `ValueError`. -/
inductive ValueError where
  | digits
  deriving DecidableEq

/-- `int` of ASCII digits. -/
def parseInt (digits : List Char) : Except ValueError ℕ :=
  if digits.length > MAX_INT_DIGITS then .error .digits else .ok (digitsValue digits)

/-- ASCII digits without a leading zero. -/
def isArrayIndex (token : List Char) : Bool :=
  !token.isEmpty && token.all isDigit && (token.length == 1 || token.head? != some '0')

/-! ## Schema nodes -/

/-- Keywords that can define fields absent from their node. -/
def APPLICATORS : List String := ["allOf", "anyOf", "oneOf", "if", "then", "else", "not"]

/-- A value that counts as true. -/
def truthy : Json → Bool
  | .null => false
  | .bool b => b
  | .int n => n ≠ 0
  | .float x => x ≠ 0
  | .str text => text ≠ ""
  | .arr items => !items.isEmpty
  | .obj members => !members.isEmpty

/-- The declared types are this one alone. -/
def isOnly (kind : String) (kinds : List String) : Bool := !kinds.isEmpty && kinds.all (· = kind)

/-- An index is not below the maximal number of items; a boolean is an integer. -/
def exceedsItems (index : ℕ) : Option Json → Bool
  | some (.int maximum) => maximum ≤ index
  | some (.bool maximum) => maximum.toNat ≤ index
  | _ => false

/-- The node of an array item, if an array can have one. -/
def arrayNode (members : Object) (token : String) : Option Json :=
  if !isArrayIndex token.toList || token.length > 18 then none
  else
    let index := digitsValue token.toList
    if exceedsItems index (members.lookup "maxItems") then none
    else
      match members.lookup "prefixItems" with
      | some (.arr nodes) => some (nodes[index]?.getD ((members.lookup "items").getD (.obj [])))
      | _ => some ((members.lookup "items").getD (.obj []))

/-- The node of a member of an object, if the schema tells. -/
def memberNode (members : Object) (types : Option (List String)) (token : String) : Option Json :=
  let declared := match members.lookup "properties" with
    | some (.obj properties) => properties.lookup token
    | _ => none
  match declared with
  | some node => some node
  | none =>
      if truthy ((members.lookup "patternProperties").getD .null) ||
          types.any (!isOnly "object" ·) then
        none
      else some ((members.lookup "additionalProperties").getD (.obj []))

/-- A view of another node in place; a node that refuses every value is impossible. -/
def SchemaView.select (view : SchemaView) : Json → Option SchemaView
  | .bool false => none
  | node => some { view with node := node }

/-- None only when a path is statically impossible; an empty node is unknown. -/
def SchemaView.child (resources : SchemaResources) (view : SchemaView) (token : String) :
    Option SchemaView :=
  let view := view.resolved resources
  match view.node with
  | .bool false => none
  | .obj members =>
      let types := schemaTypes resources view
      if APPLICATORS.any fun key => (members.lookup key).isSome then some view.unknown
      else if types.any fun kinds => !kinds.any (· ∈ ["object", "array"]) then none
      else if isArrayIndex token.toList && !types.any (isOnly "array") &&
          types.all fun kinds => "array" ∈ kinds then some view.unknown
      else if types.any (isOnly "array") then (arrayNode members token).bind view.select
      else
        match memberNode members types token with
        | some node => view.select node
        | none => some view.unknown
  | _ => some view.unknown

/-! ## Static values -/

/-- One token in a constant. -/
def constChild (value : Json) (token : String) : Except ValueError (Option Json) :=
  match value with
  | .obj members => .ok (members.lookup token)
  | .arr items =>
      if isArrayIndex token.toList then do
        let index ← parseInt token.toList
        return items[index]?
      else .ok none
  | _ => .ok none

/-- What a selection found, or nothing. -/
def Static.found (value : Option Json) : Static :=
  match value with
  | some value => { alternatives := [.const value] }
  | none => { alternatives := [], absent := true, missing := true }

/-- One token in one alternative. -/
def Alternative.child (resources : SchemaResources) (token : String) :
    Alternative → Except ValueError Static
  | .view schema =>
      match schema.child resources token with
      | some selected => .ok { alternatives := [.view selected] }
      | none => .ok { alternatives := [], absent := true }
  | .const value => do return .found (← constChild value token)
  | .obj fields => .ok ((fields.lookup token).getD (.found none))
  | .arr items =>
      if isArrayIndex token.toList then
        -- A flow that ran has its first attempt; later attempts may not have run.
        .ok { alternatives := items.alternatives, absent := true,
              missing := token ≠ "0" || items.missing }
      else .ok (.found none)

/-- Select one token in every alternative; impossible branches become absent. -/
def Static.child (resources : SchemaResources) (static : Static) (token : String) :
    Except ValueError Static := do
  let parts ← (static.expanded resources).mapM (Alternative.child resources token)
  return { alternatives := parts.flatMap Static.alternatives,
           absent := static.absent || parts.any Static.absent,
           missing := static.missing || parts.any Static.missing }

/-- What a pointer may find in a value. -/
def Static.pointer (resources : SchemaResources) (static : Static) (tokens : List String) :
    Except ValueError Static :=
  tokens.foldlM (Static.child resources) static

/-! ## Constants -/

/-- Both spellings of an index. -/
theorem isArrayIndex_eq (token : List Char) : isArrayIndex token = isIndex token := by
  unfold isArrayIndex
  match token with
  | [] => rfl
  | [c] =>
    by_cases zero : c = '0'
    · subst zero
      rfl
    · rw [isIndex]
      · simp [zero]
      · simpa using zero
  | first :: second :: rest =>
    rw [isIndex]
    · simp only [List.isEmpty_cons, Bool.not_false, Bool.true_and, List.all_cons, List.length_cons,
        List.head?_cons]
      grind
    · simp

/-- The way that tokens lead down a value. -/
inductive LeadsTo : Json → List String → Json → Prop
  | here (value : Json) : LeadsTo value [] value
  | member {members : Object} {name : String} {next value : Json} {tokens : List String}
      (found : members.lookup name = some next) (rest : LeadsTo next tokens value) :
      LeadsTo (.obj members) (name :: tokens) value
  | item {items : List Json} {token : String} {next value : Json} {tokens : List String}
      (index : isIndex token.toList = true) (found : items[digitsValue token.toList]? = some next)
      (rest : LeadsTo next tokens value) : LeadsTo (.arr items) (token :: tokens) value

/-- No array on the way is addressed by an index that is too long to parse. -/
def Readable (value : Json) (tokens : List String) : Prop :=
  ∀ before token after items, tokens = before ++ token :: after → LeadsTo value before (.arr items) →
    isIndex token.toList = true → token.toList.length ≤ MAX_INT_DIGITS

/-- An array is addressed by an index that is too long to parse. -/
def tooLong (value : Json) (token : String) : Bool :=
  match value with
  | .arr _ => isIndex token.toList && MAX_INT_DIGITS < token.toList.length
  | _ => false

/-- The value itself can be read. -/
theorem readable_nil (value : Json) : Readable value [] := by
  intro before token after items same
  cases before with
  | nil => cases same
  | cons first before => cases same

/-- What the runtime finds is where a token leads. -/
theorem leadsTo_cons {value target : Json} {token : String} {tokens : List String} :
    LeadsTo value (token :: tokens) target ↔
      ∃ next, Core.child value (escaped token.toList) = some next ∧ LeadsTo next tokens target := by
  constructor
  · intro leads
    cases leads with
    | member found rest => exact ⟨_, (child_member _ _).trans found, rest⟩
    | item index found rest =>
      refine ⟨_, ?_, rest⟩
      rw [Core.child, unescape_escaped, indexItem_eq, if_pos index, found]
  · rintro ⟨next, found, rest⟩
    cases value with
    | obj members =>
      rw [child_member] at found
      exact .member found rest
    | arr items =>
      rw [Core.child, unescape_escaped, indexItem_eq] at found
      by_cases index : isIndex token.toList = true
      · rw [if_pos index] at found
        exact .item index found rest
      · rw [if_neg index] at found
        cases found
    | _ => cases found

/-- A token is readable, and so are the others where it leads. -/
theorem readable_cons {value : Json} {token : String} {tokens : List String} :
    Readable value (token :: tokens) ↔ tooLong value token = false ∧
      ∀ next, Core.child value (escaped token.toList) = some next → Readable next tokens := by
  constructor
  · intro readable
    constructor
    · cases value with
      | arr items =>
        rw [tooLong, Bool.and_eq_false_imp]
        intro index
        have short := readable [] token tokens items rfl (.here _) index
        exact decide_eq_false (not_lt.mpr short)
      | _ => rfl
    · intro next found before other after items same leads
      exact readable (token :: before) other after items (by rw [same, List.cons_append])
        (leadsTo_cons.mpr ⟨next, found, leads⟩)
  · rintro ⟨short, rest⟩ before other after items same leads index
    cases before with
    | nil =>
      cases leads
      cases same
      rw [tooLong, index, Bool.true_and, decide_eq_false_iff_not] at short
      exact not_lt.mp short
    | cons first before =>
      cases same
      obtain ⟨next, found, onward⟩ := leadsTo_cons.mp leads
      exact rest next found before other after items rfl onward index

/-- One token of a constant: the runtime finds the same, unless the index is too long. -/
theorem constChild_eq {value : Json} {token : String} :
    constChild value token = if tooLong value token then .error .digits
      else .ok (Core.child value (escaped token.toList)) := by
  cases value with
  | obj members => rw [child_member]; rfl
  | arr items =>
    rw [Core.child, unescape_escaped, indexItem_eq, constChild, isArrayIndex_eq, tooLong]
    by_cases index : isIndex token.toList = true
    · rw [if_pos index, if_pos index, index, Bool.true_and, parseInt]
      by_cases long : MAX_INT_DIGITS < token.toList.length
      · rw [if_pos long, if_pos (decide_eq_true long)]
        rfl
      · rw [if_neg long, decide_eq_false long]
        rfl
    · rw [if_neg index, if_neg index, Bool.eq_false_iff.mpr index]
      rfl
  | _ => rfl

variable {resources : SchemaResources}

/-- A constant leads to one constant or to nothing. -/
theorem found_child {value : Json} {token : String} :
    (Static.found (some value)).child resources token =
      if tooLong value token then .error .digits
      else .ok (Static.found (Core.child value (escaped token.toList))) := by
  have one : (Static.found (some value)).expanded resources = [.const value] := rfl
  rw [Static.child, one, List.mapM_cons, List.mapM_nil, Alternative.child, constChild_eq]
  by_cases long : tooLong value token = true
  · rw [if_pos long, if_pos long]
    rfl
  · rw [if_neg long, if_neg long]
    cases Core.child value (escaped token.toList) with
    | some next => rfl
    | none => rfl

/-- Nothing stays nothing. -/
theorem nothing_pointer (tokens : List String) :
    (Static.found none).pointer resources tokens = .ok (.found none) := by
  induction tokens with
  | nil => rfl
  | cons token tokens ih => exact ih

/-- A first token and the others. -/
theorem pointer_cons {static : Static} {token : String} {tokens : List String} :
    static.pointer resources (token :: tokens) =
      (static.child resources token).bind fun next => next.pointer resources tokens := rfl

/-- Navigation fails exactly at an index that is too long, and finds what the runtime finds. -/
theorem found_pointer {value : Json} {tokens : List String} :
    (Readable value tokens ∧ (Static.found (some value)).pointer resources tokens =
        .ok (.found (lookupParts value (tokens.map fun name => escaped name.toList)))) ∨
      (¬ Readable value tokens ∧
        (Static.found (some value)).pointer resources tokens = .error .digits) := by
  induction tokens generalizing value with
  | nil => exact .inl ⟨readable_nil value, rfl⟩
  | cons token tokens ih =>
    rw [pointer_cons, found_child, readable_cons, List.map_cons, lookupParts]
    cases long : tooLong value token with
    | true => exact .inr ⟨fun readable => absurd readable.1 (by simp), rfl⟩
    | false =>
      cases found : Core.child value (escaped token.toList) with
      | none =>
        refine .inl ⟨⟨rfl, fun next h => by cases h⟩, ?_⟩
        exact nothing_pointer tokens
      | some next =>
        rcases @ih next with ⟨readable, same⟩ | ⟨stuck, failed⟩
        · exact .inl ⟨⟨rfl, fun other h => by cases h; exact readable⟩, same⟩
        · exact .inr ⟨fun readable => stuck (readable.2 next rfl), failed⟩

/-- Navigating a constant finds what a lookup of the pointer finds in the frozen constant: the same
constant alone, or nothing where the lookup finds nothing. Neither of them fails. -/
def Agrees (resources : SchemaResources) (constant : Json) (tokens : List String) : Prop :=
  ∀ frozen, freezeJson MAX_JSON_DEPTH constant = .ok frozen →
    ∃ static found, (Static.of [.const constant]).pointer resources tokens = .ok static ∧
      lookupPointer (Core.pointer tokens) frozen = .ok found ∧
      static.alternatives = (found.map Alternative.const).toList ∧ static.absent = found.isNone

/-- Static navigation agrees with the runtime on constants exactly where every index that meets an
array can be parsed. -/
theorem agrees_iff_readable {constant : Json} {tokens : List String}
    (bounded : tokens.length ≤ MAX_JSON_DEPTH) (frozen : depth constant ≤ MAX_JSON_DEPTH) :
    Agrees resources constant tokens ↔ Readable constant tokens := by
  have freezes : freezeJson MAX_JSON_DEPTH constant = .ok constant :=
    freezeJson_eq_ok.mpr ⟨frozen, rfl⟩
  constructor
  · intro agrees
    obtain ⟨static, found, navigated, -⟩ := agrees constant freezes
    rcases @found_pointer resources constant tokens with ⟨readable, -⟩ | ⟨-, failed⟩
    · exact readable
    · cases failed.symm.trans navigated
  · intro readable other accepted
    obtain ⟨-, rfl⟩ := freezeJson_eq_ok.mp accepted
    rcases @found_pointer resources constant tokens with ⟨-, same⟩ | ⟨stuck, -⟩
    · refine ⟨_, _, same, lookupPointer_pointer bounded constant, ?_⟩
      cases lookupParts constant (tokens.map fun name => escaped name.toList) with
      | some value => exact ⟨rfl, rfl⟩
      | none => exact ⟨rfl, rfl⟩
    · exact absurd readable stuck

/-! ## An index that is too long -/

/-- Resources without any reference. -/
def plainResources : SchemaResources := ⟨fun _ _ => none, 0⟩

/-- On the first item reading and navigation agree. -/
theorem agrees_first_item :
    Agrees plainResources (.arr [.int 1]) ["0"] ↔ Readable (.arr [.int 1]) ["0"] :=
  agrees_iff_readable (by decide) (by decide)

/-- An index of ones: a lookup finds nothing, but navigating the constant fails. -/
def longIndex (digits : ℕ) : String := String.ofList (List.replicate digits '1')

/-- The digits of a long index. -/
theorem length_longIndex (digits : ℕ) : (longIndex digits).toList.length = digits := by
  rw [longIndex, String.toList_ofList, List.length_replicate]

/-- A long index is one. -/
theorem isIndex_longIndex {digits : ℕ} (positive : 0 < digits) :
    isIndex (longIndex digits).toList = true := by
  rw [longIndex, String.toList_ofList]
  obtain ⟨more, rfl⟩ := Nat.exists_eq_add_one_of_ne_zero positive.ne'
  refine isIndex_iff.mpr (.inr ⟨List.cons_ne_nil _ _, fun c mem => ?_, ?_⟩)
  · rw [List.eq_of_mem_replicate mem]
    rfl
  · rw [List.replicate_succ, List.head?_cons]
    decide

/-- Navigation and lookup come apart at every index that is too long. -/
theorem longIndex_fails {items : List Json} {digits : ℕ} (long : MAX_INT_DIGITS < digits) :
    (Static.of [.const (.arr items)]).pointer resources [longIndex digits] = .error .digits := by
  have here : tooLong (.arr items) (longIndex digits) = true := by
    rw [tooLong, isIndex_longIndex (Nat.zero_lt_of_lt long), length_longIndex, decide_eq_true long]
    rfl
  have first : (Static.of [.const (.arr items)]).child resources (longIndex digits) =
      .error .digits :=
    found_child.trans (if_pos here)
  rw [pointer_cons, first]
  rfl

/-- On a long index reading and navigation disagree. -/
theorem long_index_disagrees : ¬ Agrees plainResources (.arr [.int 1]) [longIndex 4301] := by
  intro agrees
  obtain ⟨static, found, navigated, -⟩ := agrees _ rfl
  cases (longIndex_fails (by decide)).symm.trans navigated

end Foliqant.Compiler
