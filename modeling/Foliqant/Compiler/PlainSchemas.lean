import Foliqant.Compiler.SchemaNavigation

/-!
# Plain schemas

The meaning of schemas without references, as far as navigation reads them: a validity that obeys the
keywords, for schemas that are written out in full.
-/

namespace Foliqant.Compiler

open Foliqant.Core JsonText

/-- What a node accepts, and what the nodes inside it accept. -/
structure Meaning where
  accepts : Json → Bool
  branches : List (Json → Bool) := []
  members : List (String × (Json → Bool)) := []

section Keywords

-- The members of a node with their meanings.
variable (node : Object) (inner : List (String × Meaning)) (value : Json)

/-- The value has the type of that name; a float that is whole is an integer too. -/
def hasType : String → Json → Bool
  | "null", .null => true
  | "boolean", .bool _ => true
  | "string", .str _ => true
  | "integer", .int _ => true
  | "integer", .float x => x.isInt
  | "number", .int _ => true
  | "number", .float _ => true
  | "array", .arr _ => true
  | "object", .obj _ => true
  | _, _ => false

/-- The type keyword, one name or a list of them; another spelling says nothing. -/
def typeHolds : Bool :=
  match node.lookup "type" with
  | some (.str kind) => hasType kind value
  | some (.arr kinds) => kinds.any fun kind => ((Json.text? kind).map (hasType · value)).getD false
  | _ => true

/-- The constant keyword. -/
def constHolds : Bool :=
  match node.lookup "const" with
  | some constant => jsonEqual value constant
  | none => true

/-- The list of allowed values. -/
def enumHolds : Bool :=
  match node.lookup "enum" with
  | some (.arr values) => values.any (jsonEqual value)
  | _ => true

/-- A list of alternatives, of which one accepts the value. -/
def choiceHolds (name : String) : Bool :=
  match node.lookup name, inner.lookup name with
  | some (.arr _), some meaning => meaning.branches.any fun branch => branch value
  | _, _ => true

/-- The members that `properties` declares. -/
def declared (name : String) : Bool :=
  match inner.lookup "properties" with
  | some meaning => (meaning.members.lookup name).isSome
  | none => false

/-- The schemas of named members, where they are there. -/
def propertiesHold (members : Object) : Bool :=
  match inner.lookup "properties" with
  | some meaning => (Dict.keys members).all fun name =>
      match meaning.members.lookup name, members.lookup name with
      | some accepts, some next => accepts next
      | _, _ => true
  | none => true

/-- The schema of members that no property names. -/
def additionalHold (members : Object) : Bool :=
  match node.lookup "patternProperties", inner.lookup "additionalProperties" with
  -- Patterns may name members too, so nothing is known to be additional.
  | some (.obj (_ :: _)), _ => true
  | _, some meaning => (Dict.keys members).all fun name =>
      declared inner name || ((members.lookup name).map meaning.accepts).getD true
  | _, none => true

/-- The schemas of the first items. -/
def leadingHold (items : List Json) : Bool :=
  match inner.lookup "prefixItems" with
  | some meaning => (items.zip meaning.branches).all fun (next, branch) => branch next
  | none => true

/-- The schema of the items after the leading ones. -/
def itemsHold (items : List Json) : Bool :=
  match inner.lookup "items" with
  | some meaning =>
      -- The leading schemas describe the first items.
      let described := ((inner.lookup "prefixItems").map (·.branches.length)).getD 0
      (items.drop described).all meaning.accepts
  | none => true

/-- The bound on the number of items, of any numeric kind. -/
def maxItemsHolds (items : List Json) : Bool :=
  match node.lookup "maxItems" with
  | some (.int maximum) => items.length ≤ maximum
  | some (.bool maximum) => items.length ≤ maximum.toNat
  | some (.float maximum) => items.length ≤ maximum
  | _ => true

/-- The names of members that must be there. -/
def requiredHold (members : Object) : Bool :=
  match node.lookup "required" with
  | some (.arr names) =>
      names.all fun name => ((Json.text? name).map fun key => (members.lookup key).isSome).getD true
  | _ => true

/-- The least number. -/
def minimumHolds : Bool :=
  match node.lookup "minimum", value with
  | some (.int least), .int n => least ≤ n
  | some (.int least), .float x => least ≤ x
  | _, _ => true

/-- The keywords of objects and arrays. -/
def partsHold : Bool :=
  match value with
  | .obj members =>
      propertiesHold inner members && additionalHold node inner members && requiredHold node members
  | .arr items => leadingHold inner items && itemsHold inner items && maxItemsHolds node items
  | _ => true

/-- Every keyword of the schema holds of the value. -/
def satisfied : Bool :=
  typeHolds node value && constHolds node value && enumHolds node value &&
    choiceHolds node inner value "anyOf" && choiceHolds node inner value "oneOf" &&
    minimumHolds node value && partsHold node inner value

end Keywords

mutual

/-- What a schema accepts, with the meanings of its parts. -/
def meaning : Json → Meaning
  | .bool b => { accepts := fun _ => b }
  | .arr items => { accepts := fun _ => true, branches := itemMeanings items }
  | .obj members =>
      let inner := memberMeanings members
      { accepts := satisfied members inner, members := inner.map fun (name, m) => (name, m.accepts) }
  | _ => { accepts := fun _ => true }

/-- What the schemas of a list accept. -/
def itemMeanings : List Json → List (Json → Bool)
  | [] => []
  | item :: rest => (meaning item).accepts :: itemMeanings rest

/-- The meanings of the members of a schema. -/
def memberMeanings : Object → List (String × Meaning)
  | [] => []
  | (name, node) :: rest => (name, meaning node) :: memberMeanings rest

end

/-- A value is valid at a schema that is written out in full. -/
def Conforms (node value : Json) : Prop := (meaning node).accepts value = true

section Laws

/-- The meanings of members, as a map. -/
theorem memberMeanings_eq (members : Object) :
    memberMeanings members = members.map fun member => (member.1, meaning member.2) := by
  induction members with
  | nil => rfl
  | cons member rest ih => rw [memberMeanings, ih, List.map_cons]

/-- The meaning of a member is the meaning of its schema. -/
theorem lookup_memberMeanings (members : Object) (name : String) :
    (memberMeanings members).lookup name = (members.lookup name).map meaning := by
  rw [memberMeanings_eq, Dict.lookup_map_values]

/-- The meanings of items, as a map. -/
theorem itemMeanings_eq (items : List Json) :
    itemMeanings items = items.map fun item => (meaning item).accepts := by
  induction items with
  | nil => rfl
  | cons item rest ih => rw [itemMeanings, ih, List.map_cons]

/-- The branches of a list are what its schemas accept. -/
theorem branches_arr (items : List Json) :
    (meaning (.arr items)).branches = items.map fun item => (meaning item).accepts :=
  itemMeanings_eq items

/-- What a named member accepts is what its schema accepts. -/
theorem lookup_members (members : Object) (name : String) :
    (meaning (.obj members)).members.lookup name = (members.lookup name).map fun node =>
    (meaning node).accepts := by
  show ((memberMeanings members).map fun entry => (entry.1, entry.2.accepts)).lookup name = _
  rw [Dict.lookup_map_values, lookup_memberMeanings, Option.map_map]
  rfl

variable {members : Object} {value : Json}

/-- A value that conforms to a node satisfies every keyword of it. -/
theorem conforms_iff : Conforms (.obj members) value ↔
    typeHolds members value = true ∧ constHolds members value = true ∧
    enumHolds members value = true ∧
      choiceHolds members (memberMeanings members) value "anyOf" = true ∧
      choiceHolds members (memberMeanings members) value "oneOf" = true ∧
      minimumHolds members value = true ∧
      partsHold members (memberMeanings members) value = true := by
  unfold Conforms meaning
  simp only [satisfied, Bool.and_eq_true, and_assoc]

/-- The computed types are the ones that schemas are compiled for. -/
theorem hasType_iff {kind : String} : hasType kind value = true ↔ HasType kind value := by
  constructor
  · intro has
    unfold hasType at has
    split at has
    · exact .null
    · exact .boolean _
    · exact .string _
    · exact .integer _
    · exact .whole has
    · exact .number _
    · exact .float _
    · exact .array _
    · exact .object _
    · cases has
  · intro has
    cases has with
    | whole whole => exact whole
    | _ => rfl

/-- A schema with a keyword is an object that has it. -/
theorem keyword_obj {node : Json} {name : String} {child : Json}
    (keyed : keyword node name = some child) :
    ∃ members, node = .obj members ∧ members.lookup name = some child := by
  cases node with
  | obj members => exact ⟨members, rfl, keyed⟩
  | _ => cases keyed

/-- Every value conforms to the empty schema. -/
theorem conforms_empty : Conforms (.obj []) value := by
  unfold Conforms
  cases value <;> rfl

/-- A value conforms to a branch of a choice. -/
theorem choiceHolds_branch {name : String} {branches : List Json}
    (keyed : members.lookup name = some (.arr branches))
    (holds : choiceHolds members (memberMeanings members) value name = true) :
    ∃ branch ∈ branches, Conforms branch value := by
  unfold choiceHolds at holds
  rw [keyed, lookup_memberMeanings, keyed] at holds
  obtain ⟨accepts, mem, accepted⟩ := List.any_eq_true.mp holds
  rw [branches_arr] at mem
  obtain ⟨branch, among, rfl⟩ := List.mem_map.mp mem
  exact ⟨branch, among, accepted⟩

/-- A conforming value conforms to one of the alternatives. -/
theorem conforms_branch {node : Json} {name : String} {branches : List Json}
    (either : name = "anyOf" ∨ name = "oneOf") (keyed : keyword node name = some (.arr branches))
    (conforms : Conforms node value) : ∃ branch ∈ branches, Conforms branch value := by
  obtain ⟨members, rfl, here⟩ := keyword_obj keyed
  obtain ⟨-, -, -, any, one, -⟩ := conforms_iff.mp conforms
  rcases either with rfl | rfl
  · exact choiceHolds_branch here any
  · exact choiceHolds_branch here one

/-- A conforming value equals the constant. -/
theorem conforms_const {node constant : Json} (keyed : keyword node "const" = some constant)
    (conforms : Conforms node value) : jsonEqual value constant = true := by
  obtain ⟨members, rfl, here⟩ := keyword_obj keyed
  obtain ⟨-, const, -⟩ := conforms_iff.mp conforms
  unfold constHolds at const
  rwa [here] at const

/-- A conforming value equals an allowed one. -/
theorem conforms_enum {node : Json} {values : List Json}
    (keyed : keyword node "enum" = some (.arr values))
    (conforms : Conforms node value) : ∃ allowed ∈ values, jsonEqual value allowed = true := by
  obtain ⟨members, rfl, here⟩ := keyword_obj keyed
  obtain ⟨-, -, enum, -⟩ := conforms_iff.mp conforms
  unfold enumHolds at enum
  rw [here] at enum
  exact List.any_eq_true.mp enum

/-- A conforming value has the type. -/
theorem conforms_type {node : Json} {kind : String} (keyed : keyword node "type" = some (.str kind))
    (conforms : Conforms node value) : HasType kind value := by
  obtain ⟨members, rfl, here⟩ := keyword_obj keyed
  obtain ⟨type, -⟩ := conforms_iff.mp conforms
  unfold typeHolds at type
  rw [here] at type
  exact hasType_iff.mp type

/-- A conforming value has one of the types. -/
theorem conforms_types {node : Json} {kinds : List Json}
    (keyed : keyword node "type" = some (.arr kinds))
    (conforms : Conforms node value) : ∃ kind, .str kind ∈ kinds ∧ HasType kind value := by
  obtain ⟨members, rfl, here⟩ := keyword_obj keyed
  obtain ⟨type, -⟩ := conforms_iff.mp conforms
  unfold typeHolds at type
  rw [here] at type
  obtain ⟨name, mem, has⟩ := List.any_eq_true.mp type
  cases name with
  | str kind => exact ⟨kind, mem, hasType_iff.mp has⟩
  | _ => cases has

/-- What conforms to booleans is one. -/
theorem conforms_boolean {node : Json} (keyed : keyword node "type" = some (.str "boolean"))
    (conforms : Conforms node value) : ∃ b, value = .bool b := by
  have has := hasType_iff.mpr (conforms_type keyed conforms)
  cases value with
  | bool b => exact ⟨b, rfl⟩
  | _ => cases has

/-- What conforms to null is null. -/
theorem conforms_null {node : Json} (keyed : keyword node "type" = some (.str "null"))
    (conforms : Conforms node value) : value = .null := by
  have has := hasType_iff.mpr (conforms_type keyed conforms)
  cases value with
  | null => rfl
  | _ => cases has

/-! ## Parts -/

/-- A conforming value satisfies what a schema says about parts. -/
theorem conforms_parts {node : Json} {name : String} {child : Json}
    (keyed : keyword node name = some child)
    (conforms : Conforms node value) :
    ∃ members, node = .obj members ∧ members.lookup name = some child ∧
      partsHold members (memberMeanings members) value = true := by
  obtain ⟨members, rfl, here⟩ := keyword_obj keyed
  exact ⟨members, rfl, here, (conforms_iff.mp conforms).2.2.2.2.2.2⟩

/-- A member of a conforming object conforms to the schema of its property. -/
theorem conforms_property {node : Json} {own properties : Object} {name : String} {child next : Json}
    (keyed : keyword node "properties" = some (.obj properties))
    (known : properties.lookup name = some child)
    (conforms : Conforms node (.obj own)) (found : own.lookup name = some next) :
    Conforms child next := by
  obtain ⟨members, rfl, here, holds⟩ := conforms_parts keyed conforms
  have holds : propertiesHold (memberMeanings members) own = true :=
    (Bool.and_eq_true_iff.mp (Bool.and_eq_true_iff.mp holds).1).1
  unfold propertiesHold at holds
  rw [lookup_memberMeanings, here] at holds
  have each := List.all_eq_true.mp holds name (Dict.mem_keys_of_lookup found)
  rw [lookup_members, known, found] at each
  exact each

/-- The names that a schema declares. -/
theorem declared_iff {name : String} :
    declared (memberMeanings members) name = true ↔ Declared (.obj members) name := by
  unfold declared Declared
  rw [lookup_memberMeanings]
  cases listed : members.lookup "properties" with
  | none => exact iff_of_false Bool.false_ne_true (by rintro ⟨properties, there, -⟩; cases listed.symm.trans there)
  | some child =>
    have keyed : keyword (.obj members) "properties" = some child := listed
    rw [keyed, Option.map_some]
    cases child with
    | obj properties =>
      dsimp only
      rw [lookup_members, Option.isSome_map]
      exact ⟨fun known => ⟨properties, rfl, known⟩, by rintro ⟨_, ⟨⟩, known⟩; exact known⟩
    | _ => exact iff_of_false Bool.false_ne_true (by rintro ⟨_, ⟨⟩, -⟩)

/-- A member that nothing declares conforms to the schema of additional ones. -/
theorem conforms_additional {node : Json} {own : Object} {name : String} {child next : Json}
    (keyed : keyword node "additionalProperties" = some child) (undeclared : ¬ Declared node name)
    (patterns : ∀ patterns, keyword node "patternProperties" = some (.obj patterns) → patterns = [])
    (conforms : Conforms node (.obj own)) (found : own.lookup name = some next) :
    Conforms child next := by
  obtain ⟨members, rfl, here, holds⟩ := conforms_parts keyed conforms
  have holds : additionalHold members (memberMeanings members) own = true :=
    (Bool.and_eq_true_iff.mp (Bool.and_eq_true_iff.mp holds).1).2
  unfold additionalHold at holds
  rw [lookup_memberMeanings, here] at holds
  split at holds
  case h_1 listed => cases patterns _ listed
  case h_2 same _ =>
    obtain rfl := Option.some.inj same
    have each := List.all_eq_true.mp holds name (Dict.mem_keys_of_lookup found)
    rw [found] at each
    rcases Bool.or_eq_true_iff.mp each with known | accepts
    · exact absurd (declared_iff.mp known) undeclared
    · exact accepts
  case h_3 same _ => cases same

/-- A leading item conforms to the schema at its place. -/
theorem conforms_leading {node : Json} {items nodes : List Json} {index : ℕ} {child next : Json}
    (keyed : keyword node "prefixItems" = some (.arr nodes)) (known : nodes[index]? = some child)
    (conforms : Conforms node (.arr items)) (found : items[index]? = some next) :
    Conforms child next := by
  obtain ⟨members, rfl, here, holds⟩ := conforms_parts keyed conforms
  have holds : leadingHold (memberMeanings members) items = true :=
    (Bool.and_eq_true_iff.mp (Bool.and_eq_true_iff.mp holds).1).1
  unfold leadingHold at holds
  rw [lookup_memberMeanings, here] at holds
  have branch : (meaning (.arr nodes)).branches[index]? = some (meaning child).accepts := by
    rw [branches_arr, List.getElem?_map, known]
    rfl
  have pair : (next, (meaning child).accepts) ∈ items.zip (meaning (.arr nodes)).branches :=
    List.mem_of_getElem? (List.getElem?_zip_eq_some.mpr ⟨found, branch⟩)
  exact List.all_eq_true.mp holds _ pair

/-- An item after the leading ones conforms to the schema of items. -/
theorem conforms_items {node : Json} {items : List Json} {index : ℕ} {child next : Json}
    (keyed : keyword node "items" = some child)
    (leading : ∀ nodes, keyword node "prefixItems" = some (.arr nodes) → nodes.length ≤ index)
    (conforms : Conforms node (.arr items)) (found : items[index]? = some next) :
    Conforms child next := by
  obtain ⟨members, rfl, here, holds⟩ := conforms_parts keyed conforms
  have holds : itemsHold (memberMeanings members) items = true :=
    (Bool.and_eq_true_iff.mp (Bool.and_eq_true_iff.mp holds).1).2
  unfold itemsHold at holds
  rw [lookup_memberMeanings, here, lookup_memberMeanings] at holds
  have described : (((members.lookup "prefixItems").map meaning).map (·.branches.length)).getD 0 ≤
      index := by
    cases listed : members.lookup "prefixItems" with
    | none => exact Nat.zero_le _
    | some nodes =>
      cases nodes with
      | arr nodes =>
        have few := leading nodes listed
        rw [Option.map_some, Option.map_some, Option.getD_some, branches_arr, List.length_map]
        exact few
      | _ => exact Nat.zero_le _
  refine List.all_eq_true.mp holds next ?_
  have later := Nat.add_sub_cancel' described
  rw [← later, ← List.getElem?_drop] at found
  exact List.mem_of_getElem? found

/-- A conforming list is no longer than the bound. -/
theorem conforms_maxItems {node : Json} {items : List Json} {maximum : Json}
    (keyed : keyword node "maxItems" = some maximum) (conforms : Conforms node (.arr items)) :
    AtMost items.length maximum := by
  obtain ⟨members, rfl, here, holds⟩ := conforms_parts keyed conforms
  have holds : maxItemsHolds members items = true := (Bool.and_eq_true_iff.mp holds).2
  unfold maxItemsHolds at holds
  rw [here] at holds
  cases maximum with
  | int n =>
    have fits : (items.length : ℤ) ≤ n := of_decide_eq_true holds
    exact fits
  | bool b =>
    have fits : items.length ≤ b.toNat := of_decide_eq_true holds
    exact fits
  | float x =>
    have fits : (items.length : ℚ) ≤ x := of_decide_eq_true holds
    exact fits
  | _ => trivial

end Laws

/-- Validity at schemas that are written out in full. -/
def plainValidity : Validity plainResources where
  Valid view value := Conforms view.node value
  empty _ _ := conforms_empty
  reference _ _ _ _ _ selected _ := nomatch selected
  branch _ _ _ _ either keyed conforms := conforms_branch either keyed conforms
  const _ _ _ keyed conforms := conforms_const keyed conforms
  enum _ _ _ keyed conforms := conforms_enum keyed conforms
  boolean _ _ keyed conforms := conforms_boolean keyed conforms
  null _ _ keyed conforms := conforms_null keyed conforms

section Accepts

variable {view : SchemaView} {value : Json} {members : Object}
  (each : ∀ entry ∈ members, Satisfies plainValidity view value entry.1 entry.2)
include each

/-- The keyword that is looked up holds as all do. -/
theorem satisfies_of_lookup {name : String} {child : Json}
    (listed : members.lookup name = some child) :
    Satisfies plainValidity view value name child := each _ (Dict.mem_of_lookup listed)

/-- A keyword that is not known is absent. -/
theorem lookup_unknown {name : String}
    (unknown : ∀ child, ¬ Satisfies plainValidity view value name child) :
    members.lookup name = none := by
  cases listed : members.lookup name with
  | none => rfl
  | some child => exact absurd (satisfies_of_lookup each listed) (unknown child)

/-- What satisfies the keywords has the type. -/
theorem typeHolds_of_satisfies : typeHolds members value = true := by
  unfold typeHolds
  cases listed : members.lookup "type" with
  | none => rfl
  | some child =>
    obtain ⟨kind, rfl, has⟩ := satisfies_of_lookup each listed
    exact hasType_iff.mpr has

/-- What satisfies the keywords equals the constant. -/
theorem constHolds_of_satisfies : constHolds members value = true := by
  unfold constHolds
  cases listed : members.lookup "const" with
  | none => rfl
  | some child => exact satisfies_of_lookup each listed

/-- What satisfies the keywords is an allowed value. -/
theorem enumHolds_of_satisfies : enumHolds members value = true := by
  unfold enumHolds
  cases listed : members.lookup "enum" with
  | none => rfl
  | some child =>
    obtain ⟨values, rfl, allowed, mem, equal⟩ := satisfies_of_lookup each listed
    exact List.any_eq_true.mpr ⟨allowed, mem, equal⟩

/-- What satisfies the keywords is accepted by some alternative. -/
theorem anyOf_of_satisfies : choiceHolds members (memberMeanings members) value "anyOf" = true := by
  unfold choiceHolds
  rw [lookup_memberMeanings]
  cases listed : members.lookup "anyOf" with
  | none => rfl
  | some child =>
    obtain ⟨branches, rfl, branch, mem, conforms⟩ := satisfies_of_lookup each listed
    refine List.any_eq_true.mpr ⟨(meaning branch).accepts, ?_, conforms⟩
    rw [branches_arr]
    exact List.mem_map_of_mem mem

/-- What satisfies the keywords is accepted by one alternative. -/
theorem oneOf_of_satisfies : choiceHolds members (memberMeanings members) value "oneOf" = true := by
  unfold choiceHolds
  rw [lookup_unknown each fun _ => id]

/-- What satisfies the keywords is not under the minimum. -/
theorem minimumHolds_of_satisfies : minimumHolds members value = true := by
  unfold minimumHolds
  cases listed : members.lookup "minimum" with
  | none => rfl
  | some child =>
    obtain ⟨least, rfl, integer, float⟩ := satisfies_of_lookup each listed
    cases value with
    | int n => exact decide_eq_true (integer n rfl)
    | float x => exact decide_eq_true (float x rfl)
    | _ => rfl

/-- Each named member of what satisfies the keywords is accepted. -/
theorem propertiesHold_of_satisfies {own : Object} (object : value = .obj own) :
    propertiesHold (memberMeanings members) own = true := by
  unfold propertiesHold
  rw [lookup_memberMeanings]
  cases listed : members.lookup "properties" with
  | none => rfl
  | some child =>
    obtain ⟨properties, rfl, valid⟩ := satisfies_of_lookup each listed
    refine List.all_eq_true.mpr fun name _ => ?_
    rw [lookup_members]
    cases known : properties.lookup name with
    | none => rfl
    | some node =>
      cases found : own.lookup name with
      | none => rfl
      | some next => exact valid own name node next object known found

/-- Each additional member of what satisfies the keywords is accepted. -/
theorem additionalHold_of_satisfies (here : view.node = .obj members) {own : Object}
    (object : value = .obj own) :
    additionalHold members (memberMeanings members) own = true := by
  unfold additionalHold
  have absent : members.lookup "patternProperties" = none := lookup_unknown each fun _ => id
  rw [lookup_memberMeanings, absent]
  cases listed : members.lookup "additionalProperties" with
  | none => rfl
  | some child =>
    have valid := satisfies_of_lookup each listed
    refine List.all_eq_true.mpr fun name _ => ?_
    by_cases known : Declared (.obj members) name
    · rw [declared_iff.mpr known, Bool.true_or]
    · cases found : own.lookup name with
      | none => exact Bool.or_true _
      | some next => exact Bool.or_eq_true_iff.mpr (.inr (valid own name next object found (here ▸ known)))

/-- What satisfies the keywords has the required members. -/
theorem requiredHold_of_satisfies {own : Object} (object : value = .obj own) :
    requiredHold members own = true := by
  unfold requiredHold
  cases listed : members.lookup "required" with
  | none => rfl
  | some child =>
    obtain ⟨names, rfl, present⟩ := satisfies_of_lookup each listed
    refine List.all_eq_true.mpr fun name mem => ?_
    cases name with
    | str key => exact present own key object mem
    | _ => rfl

/-- Each later item of what satisfies the keywords is accepted. -/
theorem itemsHold_of_satisfies {items : List Json} (array : value = .arr items) :
    itemsHold (memberMeanings members) items = true := by
  unfold itemsHold
  rw [lookup_memberMeanings]
  cases listed : members.lookup "items" with
  | none => rfl
  | some child =>
    have valid := satisfies_of_lookup each listed
    exact List.all_eq_true.mpr fun next mem => valid items array next (List.mem_of_mem_drop mem)

/-- The parts of what satisfies the keywords are accepted. -/
theorem partsHold_of_satisfies (here : view.node = .obj members) :
    partsHold members (memberMeanings members) value = true := by
  cases value with
  | obj own =>
    exact Bool.and_eq_true_iff.mpr ⟨Bool.and_eq_true_iff.mpr ⟨propertiesHold_of_satisfies each rfl,
      additionalHold_of_satisfies each here rfl⟩, requiredHold_of_satisfies each rfl⟩
  | arr items =>
    have leading : leadingHold (memberMeanings members) items = true := by
      unfold leadingHold
      have absent : members.lookup "prefixItems" = none := lookup_unknown each fun _ => id
      rw [lookup_memberMeanings, absent]
      rfl
    have most : maxItemsHolds members items = true := by
      unfold maxItemsHolds
      have absent : members.lookup "maxItems" = none := lookup_unknown each fun _ => id
      rw [absent]
    exact Bool.and_eq_true_iff.mpr
      ⟨Bool.and_eq_true_iff.mpr ⟨leading, itemsHold_of_satisfies each rfl⟩, most⟩
  | _ => rfl

/-- What satisfies the keywords conforms to the schema. -/
theorem conforms_of_satisfies (here : view.node = .obj members) : Conforms (.obj members) value :=
  conforms_iff.mpr ⟨typeHolds_of_satisfies each, constHolds_of_satisfies each,
      enumHolds_of_satisfies each,
    anyOf_of_satisfies each, oneOf_of_satisfies each, minimumHolds_of_satisfies each,
    partsHold_of_satisfies each here⟩

end Accepts

/-- The plain meaning of schemas obeys the laws that their navigation relies on. -/
theorem plainKeywords : Keywords plainValidity where
  never view value impossible valid := by
    have refused : Conforms (.bool false) value := impossible ▸ valid
    cases refused
  type _ _ _ keyed := conforms_type keyed
  types _ _ _ keyed := conforms_types keyed
  property _ _ _ _ _ _ keyed known := conforms_property keyed known
  additional _ _ _ _ _ keyed undeclared patterns := conforms_additional keyed undeclared patterns
  leading _ _ _ _ _ _ keyed known := conforms_leading keyed known
  items _ _ _ _ _ keyed leading := conforms_items keyed leading
  maxItems _ _ _ keyed := conforms_maxItems keyed
  accepts view value members here each := by
    have conforms := conforms_of_satisfies each here
    rwa [← here] at conforms

end Foliqant.Compiler
