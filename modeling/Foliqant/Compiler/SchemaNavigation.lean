import Foliqant.Compiler.Navigation
import Foliqant.Compiler.StaticVerdicts
import Foliqant.Compiler.StepBindingsSpec

/-!
# Soundness of static navigation

Navigation through the schema that a value is valid at ends at a schema that what the same tokens find in
the value is valid at. A path that is statically impossible therefore finds nothing, and the static types
of a path are types of what it finds.
-/

namespace Foliqant.Compiler

open Foliqant.Core JsonText

/-! ## Types -/

/-- The types of a value: a whole number is an integer, and every integer is a number. -/
inductive HasType : String → Json → Prop
  | null : HasType "null" .null
  | boolean (b : Bool) : HasType "boolean" (.bool b)
  | string (text : String) : HasType "string" (.str text)
  | integer (n : ℤ) : HasType "integer" (.int n)
  | whole {x : ℚ} (whole : x.isInt = true) : HasType "integer" (.float x)
  | number (n : ℤ) : HasType "number" (.int n)
  | float (x : ℚ) : HasType "number" (.float x)
  | array (items : List Json) : HasType "array" (.arr items)
  | object (members : Object) : HasType "object" (.obj members)

/-- A value that equals a constant has the type of the constant. -/
theorem hasType_of_equal {value constant : Json} (equal : jsonEqual value constant = true) :
    HasType (jsonType constant) value := by
  cases value <;> cases constant <;> try cases equal
  case null.null => exact .null
  case bool.bool => exact .boolean _
  case int.int => exact .integer _
  case int.float => exact .number _
  case float.int x n =>
    have same : x = n := of_decide_eq_true equal
    refine .whole ?_
    rw [same, Rat.isInt, Rat.den_intCast, beq_self_eq_true]
  case float.float => exact .float _
  case str.str => exact .string _
  case arr.arr => exact .array _
  case obj.obj => exact .object _

/-! ## Keywords -/

/-- A number of items is at most what a keyword allows. -/
def AtMost (count : ℕ) : Json → Prop
  | .int maximum => count ≤ maximum
  | .bool maximum => count ≤ maximum.toNat
  | .float maximum => count ≤ maximum
  | _ => True

/-- The members that `properties` declares. -/
def Declared (node : Json) (name : String) : Prop :=
  ∃ properties, keyword node "properties" = some (.obj properties) ∧ (properties.lookup name).isSome

/-- A value satisfies a keyword whose whole meaning is known. -/
def Satisfies {resources : SchemaResources} (validity : Validity resources) (view : SchemaView)
    (value : Json) (name : String) (child : Json) : Prop :=
  match name with
  | "type" => ∃ kind, child = .str kind ∧ HasType kind value
  | "const" => jsonEqual value child = true
  | "enum" => ∃ values, child = .arr values ∧ ∃ allowed ∈ values, jsonEqual value allowed = true
  | "anyOf" => ∃ branches, child = .arr branches ∧
      ∃ branch ∈ branches, validity.Valid { view with node := branch } value
  | "properties" => ∃ properties, child = .obj properties ∧ ∀ members name node next,
        value = .obj members →
      properties.lookup name = some node → members.lookup name = some next →
        validity.Valid { view with node := node } next
  | "additionalProperties" => ∀ members name next, value = .obj members →
      members.lookup name = some next → ¬ Declared view.node name →
        validity.Valid { view with node := child } next
  | "items" => ∀ items, value = .arr items → ∀ next ∈ items,
      validity.Valid { view with node := child } next
  | "required" => ∃ names, child = .arr names ∧ ∀ members name, value = .obj members →
      .str name ∈ names → (members.lookup name).isSome
  | "minimum" => ∃ least : ℤ, child = .int least ∧ (∀ n, value = .int n → least ≤ n) ∧
      ∀ x, value = .float x → least ≤ x
  | _ => False

/-- Validity obeys the keywords that navigation reads, and accepts what satisfies known keywords only. -/
structure Keywords {resources : SchemaResources} (validity : Validity resources) : Prop where
  /-- `false` accepts nothing. -/
  never : ∀ view value, view.node = .bool false → ¬ validity.Valid view value
  type : ∀ view value kind, keyword view.node "type" = some (.str kind) → validity.Valid view value →
    HasType kind value
  types : ∀ view value kinds, keyword view.node "type" = some (.arr kinds) →
      validity.Valid view value →
    ∃ kind, .str kind ∈ kinds ∧ HasType kind value
  property : ∀ view members properties name node value,
    keyword view.node "properties" = some (.obj properties) → properties.lookup name = some node →
    validity.Valid view (.obj members) → members.lookup name = some value →
    validity.Valid { view with node := node } value
  /-- What no other keyword names is an additional property. -/
  additional : ∀ view members name node value, keyword view.node "additionalProperties" = some node →
    ¬ Declared view.node name →
    (∀ patterns, keyword view.node "patternProperties" = some (.obj patterns) → patterns = []) →
    validity.Valid view (.obj members) → members.lookup name = some value →
    validity.Valid { view with node := node } value
  leading : ∀ view items nodes (index : ℕ) node value,
      keyword view.node "prefixItems" = some (.arr nodes) →
    nodes[index]? = some node → validity.Valid view (.arr items) → items[index]? = some value →
    validity.Valid { view with node := node } value
  /-- What no leading schema describes is an item. -/
  items : ∀ view items (index : ℕ) node value, keyword view.node "items" = some node →
    (∀ nodes, keyword view.node "prefixItems" = some (.arr nodes) → nodes.length ≤ index) →
    validity.Valid view (.arr items) → items[index]? = some value →
    validity.Valid { view with node := node } value
  maxItems : ∀ view items maximum, keyword view.node "maxItems" = some maximum →
    validity.Valid view (.arr items) → AtMost items.length maximum
  accepts : ∀ view value members, view.node = .obj members →
    (∀ entry ∈ members, Satisfies validity view value entry.1 entry.2) → validity.Valid view value

/-- An index of at most 18 digits: no array has an item for a longer one. -/
def ShortIndex (token : String) : Prop := isIndex token.toList = true → token.length ≤ 18

instance (token : String) : Decidable (ShortIndex token) := inferInstanceAs (Decidable (_ → _))

/-! ## Navigation -/

section Sound

variable {resources : SchemaResources} {validity : Validity resources} (laws : Keywords validity)
include laws

/-- A valid value has one of the declared types. -/
theorem schemaTypes_spec {view : SchemaView} {value : Json} (valid : validity.Valid view value)
    {kinds : List String} (declared : schemaTypes resources view = some kinds) :
    ∃ kind ∈ kinds, HasType kind value := by
  have valid : validity.Valid (view.resolved resources) value := resolved_valid valid
  unfold schemaTypes at declared
  dsimp only at declared
  split at declared
  case h_1 _ _ _ kind here =>
    obtain rfl := Option.some.inj declared
    exact ⟨kind, List.mem_singleton_self _, laws.type _ value kind here valid⟩
  case h_2 _ _ _ names here =>
    obtain rfl := Option.some.inj declared
    obtain ⟨kind, mem, has⟩ := laws.types _ value names here valid
    exact ⟨kind, List.mem_filterMap.mpr ⟨_, mem, rfl⟩, has⟩
  case h_3 _ _ _ constant here _ _ =>
    obtain rfl := Option.some.inj declared
    exact ⟨_, List.mem_singleton_self _,
      hasType_of_equal (validity.const _ value constant here valid)⟩
  case h_4 _ _ _ values _ here _ _ =>
    obtain rfl := Option.some.inj declared
    obtain ⟨allowed, mem, equal⟩ := validity.enum _ value values here valid
    exact ⟨_, List.mem_map_of_mem mem, hasType_of_equal equal⟩
  case h_5 => cases declared

/-- A view of a node that accepts a value is possible. -/
theorem select_valid {view : SchemaView} {node value : Json}
    (valid : validity.Valid { view with node := node } value) :
    ∃ selected, view.select node = some selected ∧ validity.Valid selected value := by
  unfold SchemaView.select
  split
  case h_1 => exact absurd valid (laws.never _ value rfl)
  case h_2 => exact ⟨_, rfl, valid⟩

omit laws in
/-- A keyword of an object schema is a member of it. -/
theorem keyword_members {view : SchemaView} {members : Object}
    (object : view.node = .obj members) (name : String) :
    keyword view.node name = members.lookup name := by
  rw [object]
  rfl

omit laws in
/-- No item of an array is beyond the items that are allowed. -/
theorem exceedsItems_eq_false {index count : ℕ} (below : index < count) {maximum : Option Json}
    (most : ∀ allowed ∈ maximum, AtMost count allowed) : exceedsItems index maximum = false := by
  cases maximum with
  | none => rfl
  | some allowed =>
    have fits := most allowed rfl
    cases allowed with
    | int n =>
      have fits : (count : ℤ) ≤ n := fits
      exact decide_eq_false (by omega)
    | bool b =>
      have fits : count ≤ b.toNat := fits
      exact decide_eq_false (by omega)
    | _ => rfl

/-- The node of an array item accepts it. -/
theorem arrayNode_valid {view : SchemaView} {members : Object} (object : view.node = .obj members)
    {items : List Json} (valid : validity.Valid view (.arr items)) {token : String}
    (index : isIndex token.toList = true) (short : ShortIndex token) {next : Json}
    (found : items[digitsValue token.toList]? = some next) :
    ∃ node, arrayNode members token = some node ∧ validity.Valid { view with node := node } next := by
  have keyed := keyword_members object
  have below : digitsValue token.toList < items.length := (List.getElem?_eq_some_iff.mp found).1
  have allowed : exceedsItems (digitsValue token.toList) (members.lookup "maxItems") = false :=
    exceedsItems_eq_false below fun maximum most => laws.maxItems view items maximum ((keyed _).trans most) valid
  have rest (leading : ∀ nodes, keyword view.node "prefixItems" = some (.arr nodes) →
      nodes.length ≤ digitsValue token.toList) :
      validity.Valid { view with node := (members.lookup "items").getD (.obj []) } next := by
    cases listed : members.lookup "items" with
    | none => exact validity.empty view next
    | some node => exact laws.items view items _ node next ((keyed _).trans listed) leading valid found
  unfold arrayNode
  rw [isArrayIndex_eq, index, decide_eq_false (not_lt.mpr (short index)), if_neg (by decide)]
  dsimp only
  rw [if_neg (by rw [allowed]; decide)]
  split
  case h_1 nodes leads =>
    refine ⟨_, rfl, ?_⟩
    -- An index beyond the leading schemas is one of the other items.
    cases node : nodes[digitsValue token.toList]? with
    | some node' =>
      exact laws.leading view items nodes _ node' next ((keyed _).trans leads) node valid found
    | none =>
      refine rest fun others same => ?_
      obtain rfl := Value.arr.inj (Option.some.inj (((keyed _).trans leads).symm.trans same))
      exact List.getElem?_eq_none_iff.mp node
  case h_2 other =>
    refine ⟨_, rfl, rest fun nodes same => ?_⟩
    exact absurd ((keyed _).symm.trans same) (other nodes)

/-- The node of a member of an object accepts it. -/
theorem memberNode_valid {view : SchemaView} {object : Object} (here : view.node = .obj object)
    {members : Object} (valid : validity.Valid view (.obj members)) {types : Option (List String)}
    {token : String} {next : Json} (found : members.lookup token = some next) {node : Json}
    (selected : memberNode object types token = some node) :
    validity.Valid { view with node := node } next := by
  have keyed := keyword_members here
  unfold memberNode at selected
  dsimp only at selected
  split at selected
  case h_1 declared listed =>
    obtain rfl := Option.some.inj selected
    split at listed
    case h_1 properties there =>
      exact laws.property view members properties token declared next ((keyed _).trans there)
        listed valid found
    case h_2 => cases listed
  case h_2 undeclared =>
    split_ifs at selected with open_
    obtain rfl := Option.some.inj selected
    cases additional : object.lookup "additionalProperties" with
    | none => exact validity.empty view next
    | some node' =>
      refine laws.additional view members token node' next
        ((keyed _).trans additional) ?_ ?_ valid found
      · rintro ⟨properties, there, known⟩
        rw [(keyed _).symm.trans there] at undeclared
        have none_ : properties.lookup token = none := undeclared
        rw [none_] at known
        cases known
      · intro patterns there
        rw [(keyed _).symm.trans there, Bool.or_eq_true, not_or] at open_
        have empty : ¬ (!patterns.isEmpty) = true := open_.1
        rwa [Bool.not_eq_true', Bool.not_eq_false, List.isEmpty_iff] at empty

/-- Where types are declared, the only type of a value is among them. -/
theorem declares {view : SchemaView} {value : Json}
    (valid : validity.Valid view value) {kind : String}
    (only : ∀ other, HasType other value → other = kind) :
    ∀ kinds ∈ schemaTypes resources view, kind ∈ kinds := by
  intro kinds declared
  obtain ⟨other, mem, has⟩ := schemaTypes_spec laws valid declared
  exact only other has ▸ mem

omit laws in
/-- Types that may be those of a container do not exclude its children. -/
theorem opens {types : Option (List String)} {kind : String} (container : kind ∈ ["object", "array"])
    (among : ∀ kinds ∈ types, kind ∈ kinds) :
    ¬ types.any (fun kinds => !kinds.any (· ∈ ["object", "array"])) = true := by
  cases types with
  | none => exact Bool.false_ne_true
  | some kinds =>
    have found : kinds.any (· ∈ ["object", "array"]) = true :=
      List.any_eq_true.mpr ⟨kind, among kinds rfl, decide_eq_true container⟩
    rw [Option.any_some, found]
    exact Bool.false_ne_true

omit laws in
/-- A schema that allows one type is not confined to another. -/
theorem isOnly_of_mem {types : Option (List String)} {kind : String}
    (among : ∀ kinds ∈ types, kind ∈ kinds)
    {other : String} (ne : kind ≠ other) : ¬ types.any (isOnly other) = true := by
  intro only
  cases types with
  | none => cases only
  | some kinds =>
    have all : kinds.all (· = other) = true := (Bool.and_eq_true_iff.mp only).2
    exact ne (of_decide_eq_true (List.all_eq_true.mp all kind (among kinds rfl)))

/-- The view of a child accepts what the token finds; in particular the child is possible. -/
theorem SchemaView.child_sound {view : SchemaView} {value next : Json} {token : String}
    (valid : validity.Valid view value) (short : ShortIndex token)
    (found : childToken value token = some next) :
    ∃ selected, view.child resources token = some selected ∧ validity.Valid selected next := by
  have unknown (other : SchemaView) : ∃ selected, some other.unknown = some selected ∧
      validity.Valid selected next := ⟨_, rfl, validity.empty other next⟩
  have valid : validity.Valid (view.resolved resources) value := resolved_valid valid
  unfold SchemaView.child
  dsimp only
  split
  case h_1 impossible => exact absurd valid (laws.never _ value impossible)
  case h_3 => exact unknown _
  case h_2 members here =>
    -- The compiler looks below no applicator: the unknown view accepts everything.
    by_cases applied : (APPLICATORS.any fun key => (members.lookup key).isSome) = true
    · rw [if_pos applied]
      exact unknown _
    rw [if_neg applied]
    cases value with
    | arr items =>
      rw [childToken, indexItem_eq] at found
      split_ifs at found with index
      have among := declares laws valid fun other has => (by cases has; rfl : other = "array")
      have possible : (schemaTypes resources (view.resolved resources)).all
          (fun kinds => "array" ∈ kinds) = true :=
        (Option.all_eq_true _ _).mpr fun kinds declared => decide_eq_true (among kinds declared)
      rw [if_neg (opens (by decide) among), isArrayIndex_eq, index, possible, Bool.true_and, Bool.and_true]
      by_cases only : (schemaTypes resources (view.resolved resources)).any (isOnly "array") = true
      · rw [if_neg (by rw [only]; decide), if_pos only]
        obtain ⟨node, selected, accepts⟩ :=
          arrayNode_valid laws here valid index short found
        rw [selected]
        exact select_valid laws accepts
      · rw [if_pos (by rw [Bool.eq_false_iff.mpr only]; rfl)]
        exact unknown _
    | obj own =>
      have found : own.lookup token = some next := found
      have among := declares laws valid fun other has => (by cases has; rfl : other = "object")
      rw [if_neg (opens (by decide) among), if_neg (isOnly_of_mem among (by decide))]
      split_ifs
      · exact unknown _
      · split
        case h_1 node selected => exact select_valid laws (memberNode_valid laws here valid found selected)
        case h_2 => exact unknown _
    | _ => cases found

/-! ## Static values -/

omit laws in
/-- An escaped token addresses the member of its plain name. -/
theorem child_escaped (value : Json) (token : String) :
    Core.child value (escaped token.toList) = childToken value token := by
  cases value with
  | obj members => exact child_member members token
  | arr items => rw [Core.child, unescape_escaped, childToken]
  | _ => rfl

omit laws in
/-- A field that a projected object has is admitted by the static value under its name. -/
theorem fieldsAdmit_lookup {fields : List (String × Static)} {members : Object}
    (admits : FieldsAdmit validity fields members) {name : String} {value : Json}
    (found : members.lookup name = some value) {static : Static}
    (known : fields.lookup name = some static) :
    static.Admits validity value := by
  induction fields with
  | nil => cases known
  | cons field rest ih =>
    obtain ⟨other, first⟩ := field
    obtain ⟨here, others⟩ := admits
    rw [List.lookup_cons] at known
    split at known
    case h_1 same =>
      obtain rfl := Option.some.inj known
      obtain rfl := eq_of_beq same
      rw [found] at here
      exact here
    case h_2 => exact ih others known

/-- What a token finds in an admitted value is admitted by what the token selects. -/
theorem Alternative.child_sound {alternative : Alternative} {value next : Json} {token : String}
    (admits : alternative.Admits validity value) (short : ShortIndex token)
    (found : childToken value token = some next) {part : Static}
    (selected : alternative.child resources token = .ok part) : part.Admits validity next := by
  rcases alternative with schema | constant | fields | items
  · obtain ⟨view, child, valid⟩ := SchemaView.child_sound laws admits short found
    rw [Alternative.child, child] at selected
    obtain rfl := Except.ok.inj selected
    exact static_admits_iff.mpr ⟨_, List.mem_singleton_self _, valid⟩
  · obtain rfl : value = constant := admits
    rw [Alternative.child, constChild_eq, child_escaped] at selected
    split_ifs at selected with long
    · cases selected
    · rw [found] at selected
      obtain rfl := Except.ok.inj selected
      exact static_admits_iff.mpr ⟨_, List.mem_singleton_self _, rfl⟩
  · obtain ⟨members, rfl, fits, known⟩ := admits
    have found : members.lookup token = some next := found
    obtain rfl := Except.ok.inj selected
    have mem : token ∈ Dict.keys fields :=
      known token (List.mem_map_of_mem (Dict.mem_of_lookup found))
    cases field : fields.lookup token with
    | none => exact absurd mem (Dict.lookup_eq_none.mp field)
    | some static => exact fieldsAdmit_lookup fits found field
  · obtain ⟨values, rfl, each⟩ := admits
    rw [childToken, indexItem_eq] at found
    split_ifs at found with index
    rw [Alternative.child, isArrayIndex_eq, if_pos index] at selected
    obtain rfl := Except.ok.inj selected
    obtain ⟨leaf, mem, admits⟩ := static_admits_iff.mp (each next (List.mem_of_getElem? found))
    exact static_admits_iff.mpr ⟨leaf, mem, admits⟩

/-- One token of a static value. -/
theorem Static.child_sound {static : Static} {value next : Json} {token : String}
    (admits : static.Admits validity value) (short : ShortIndex token)
    (found : childToken value token = some next) {selected : Static}
    (step : static.child resources token = .ok selected) : selected.Admits validity next := by
  obtain ⟨alternative, mem, admits⟩ := expanded_admits admits
  obtain ⟨parts, each, result⟩ := Except.bind_eq_ok.mp step
  obtain rfl := Except.pure_eq_ok.mp result
  obtain ⟨part, among, child⟩ := List.Forall₂.exists_of_mem_left (List.mapM_eq_ok.mp each) mem
  obtain ⟨leaf, here, fits⟩ :=
    static_admits_iff.mp (Alternative.child_sound laws admits short found child)
  exact static_admits_iff.mpr ⟨leaf, List.mem_flatMap.mpr ⟨part, among, here⟩, fits⟩

/-- What some tokens find in an admitted value is admitted by what they select. -/
theorem Static.pointer_sound {tokens : List String} {static : Static} {value next : Json}
    (admits : static.Admits validity value) (short : ∀ token ∈ tokens, ShortIndex token)
    (found : lookupTokens value tokens = some next) {selected : Static}
    (steps : static.pointer resources tokens = .ok selected) : selected.Admits validity next := by
  induction tokens generalizing static value with
  | nil =>
    obtain rfl := Except.ok.inj steps
    obtain rfl := Option.some.inj found
    exact admits
  | cons token tokens ih =>
    rw [lookupTokens] at found
    obtain ⟨middle, first, rest⟩ := Option.bind_eq_some_iff.mp found
    rw [pointer_cons] at steps
    obtain ⟨onward, step, others⟩ := Except.bind_eq_ok.mp steps
    obtain ⟨here, after⟩ := List.forall_mem_cons.mp short
    exact ih (Static.child_sound laws admits here first step) after rest others

end Sound

end Foliqant.Compiler
