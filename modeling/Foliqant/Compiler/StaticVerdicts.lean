import Foliqant.Compiler.ConditionsSpec
import Foliqant.Compiler.StaticValues

/-!
# Soundness of static verdicts

A schema node admits the values that are valid at it. When the static value of every pointer admits what
the pointer finds, a verdict about a condition is the result of its evaluation.
-/

namespace Foliqant.Compiler

open Foliqant.Core JsonText

/-! ## Keys -/

/-- The order of the members does not matter. -/
theorem sortMembers_eq {as bs : Object} (same : ∀ key, as.lookup key = bs.lookup key) :
    sortMembers as = sortMembers bs := by
  have keys : (Dict.keys as).toFinset = (Dict.keys bs).toFinset := by
    ext key
    rw [List.mem_toFinset, List.mem_toFinset]
    refine not_iff_not.mp ?_
    rw [← Dict.lookup_eq_none, ← Dict.lookup_eq_none, same]
  unfold sortMembers
  rw [keys]
  refine congrArg (List.filterMap · _) (funext fun key => ?_)
  rw [same]

/-- A canonical member is the member's canonical value. -/
theorem lookup_canonicalMembers (members : Object) (key : String) :
    (canonicalMembers members).lookup key = (members.lookup key).map canonical := by
  induction members with
  | nil => rfl
  | cons member rest ih =>
    obtain ⟨name, value⟩ := member
    unfold canonicalMembers
    rw [List.lookup_cons, List.lookup_cons, ih]
    by_cases here : key = name
    · rw [here, beq_self_eq_true]
      rfl
    · rw [beq_false_of_ne here]

/-- A whole float is canonically an integer. -/
theorem canonical_number {x : ℚ} {n : ℤ} (same : (n : ℚ) = x) : canonical (.float x) = .int n := by
  subst same
  have whole : (n : ℚ).isInt = true := by rw [Rat.isInt, Rat.den_intCast, beq_self_eq_true]
  unfold canonical
  rw [if_pos whole, Rat.num_intCast]

mutual

/-- Values that compare equal have one key. -/
theorem canonical_of_equal : (a b : Json) → jsonEqual a b = true → canonical a = canonical b
  | .null, .null, _ => rfl
  | .bool a, .bool b, equal => congrArg Value.bool (of_decide_eq_true equal)
  | .int _, .int _, equal => congrArg Value.int (of_decide_eq_true equal)
  | .int _, .float _, equal => (canonical_number (of_decide_eq_true equal)).symm
  | .float _, .int _, equal => canonical_number (of_decide_eq_true equal).symm
  | .float _, .float _, equal => congrArg (canonical <| Value.float ·) (of_decide_eq_true equal)
  | .str _, .str _, equal => congrArg Value.str (of_decide_eq_true equal)
  | .arr as, .arr bs, equal => congrArg Value.arr (canonicalItems_of_equal as bs equal)
  | .obj as, .obj bs, equal => by
      obtain ⟨known, members⟩ := Bool.and_eq_true_iff.mp equal
      refine congrArg Value.obj (sortMembers_eq fun key => ?_)
      rw [lookup_canonicalMembers, lookup_canonicalMembers]
      rcases found : as.lookup key with _ | a
      · have absent : bs.lookup key = none := by
          refine Dict.lookup_eq_none.mpr fun mem => Dict.lookup_eq_none.mp found ?_
          exact of_decide_eq_true (List.all_eq_true.mp known key mem)
        rw [absent]
      · obtain ⟨b, other, same⟩ :=
          canonicalMembers_of_equal as bs members key a (Dict.mem_of_lookup found)
        rw [other, Option.map_some, Option.map_some, same]

/-- Equal items have one canonical form. -/
theorem canonicalItems_of_equal : (as bs : List Json) → itemsEqual as bs = true →
    canonicalItems as = canonicalItems bs
  | [], [], _ => rfl
  | a :: as, b :: bs, equal => by
      obtain ⟨first, others⟩ := Bool.and_eq_true_iff.mp equal
      exact congrArg₂ List.cons (canonical_of_equal a b first) (canonicalItems_of_equal as bs others)

/-- Equal members have one canonical form. -/
theorem canonicalMembers_of_equal : (as bs : Object) → membersEqual as bs = true →
    ∀ key a, (key, a) ∈ as → ∃ b, bs.lookup key = some b ∧ canonical a = canonical b
  | (name, first) :: as, bs, equal, key, a, mem => by
      obtain ⟨here, others⟩ := Bool.and_eq_true_iff.mp equal
      rcases List.mem_cons.mp mem with same | there
      · obtain ⟨rfl, rfl⟩ := Prod.mk.inj same
        rcases found : bs.lookup key with _ | b
        · rw [found] at here
          cases here
        · rw [found] at here
          exact ⟨b, rfl, canonical_of_equal a b here⟩
      · exact canonicalMembers_of_equal as bs others key a there

end

/-- Equal values have one key. -/
theorem jsonKey_of_equal (repr : ℚ → String) {a b : Json} (equal : jsonEqual a b = true) :
    jsonKey repr a = jsonKey repr b := by
  unfold jsonKey
  rw [canonical_of_equal a b equal]

/-! ## What a schema node admits -/

/-- Validity at the nodes of some schema resources, as far as static values rely on it. -/
structure Validity (resources : SchemaResources) where
  Valid : SchemaView → Json → Prop
  /-- The empty schema accepts everything. -/
  empty : ∀ view value, Valid (SchemaView.unknown view) value
  /-- A value is valid at what a reference selects. -/
  reference : ∀ view value text target, keyword view.node "$ref" = some (.str text) →
    resources.refer view text = some target → Valid view value → Valid target value
  /-- A value is valid at a branch of a choice. -/
  branch : ∀ view value name branches, name = "anyOf" ∨ name = "oneOf" →
    keyword view.node name = some (.arr branches) → Valid view value →
      ∃ branch ∈ branches, Valid { view with node := branch } value
  const : ∀ view value constant, keyword view.node "const" = some constant → Valid view value →
    jsonEqual value constant = true
  enum : ∀ view value values, keyword view.node "enum" = some (.arr values) → Valid view value →
    ∃ allowed ∈ values, jsonEqual value allowed = true
  boolean : ∀ view value, keyword view.node "type" = some (.str "boolean") → Valid view value →
    ∃ b, value = .bool b
  null : ∀ view value, keyword view.node "type" = some (.str "null") →
    Valid view value → value = .null

section Admission

variable {resources : SchemaResources} (validity : Validity resources)

mutual

/-- The values of an alternative. -/
def Alternative.Admits : Alternative → Json → Prop
  | .view schema, value => validity.Valid schema value
  | .const constant, value => value = constant
  | .obj fields, value => ∃ members, value = .obj members ∧ FieldsAdmit fields members ∧
      ∀ key ∈ Dict.keys members, key ∈ Dict.keys fields
  | .arr items, value => ∃ values, value = .arr values ∧ ∀ item ∈ values, items.Admits item

/-- One of the alternatives admits the value. -/
def Static.Admits : Static → Json → Prop
  | ⟨alternatives, _, _⟩, value => AnyAdmits alternatives value

/-- The values of some alternative. -/
def AnyAdmits : List Alternative → Json → Prop
  | [], _ => False
  | alternative :: rest, value => alternative.Admits value ∨ AnyAdmits rest value

/-- Every field that is there is admitted, and those that may not be absent are there. -/
def FieldsAdmit : List (String × Static) → Object → Prop
  | [], _ => True
  | (name, static) :: rest, members =>
      (match members.lookup name with
        | some value => static.Admits value
        | none => static.absent = true) ∧ FieldsAdmit rest members

end

variable {validity}

/-- Some alternative admits the value. -/
theorem anyAdmits_iff {alternatives : List Alternative} {value : Json} :
    AnyAdmits validity alternatives value ↔ ∃ a ∈ alternatives, a.Admits validity value := by
  induction alternatives with
  | nil => exact iff_of_false id (by rintro ⟨_, mem, -⟩; cases mem)
  | cons alternative rest ih =>
    show _ ∨ AnyAdmits validity rest value ↔ _
    rw [ih, List.exists_mem_cons_iff]

/-- What is known about a value admits it by an alternative. -/
theorem static_admits_iff {static : Static} {value : Json} :
    static.Admits validity value ↔ ∃ a ∈ static.alternatives, a.Admits validity value := by
  rcases static with ⟨alternatives, _, _⟩
  exact anyAdmits_iff

/-- One of several values. -/
theorem union_admits {items : List Static} {absent : Option Bool} {static : Static}
    (mem : static ∈ items)
    {value : Json} (admits : static.Admits validity value) :
    (union items absent).Admits validity value := by
  obtain ⟨alternative, among, admits⟩ := static_admits_iff.mp admits
  exact static_admits_iff.mpr ⟨alternative, List.mem_flatMap.mpr ⟨static, mem, among⟩, admits⟩

/-- Following references keeps the valid values. -/
theorem followReferences_valid {steps : ℕ} {view : SchemaView} {value : Json}
    (valid : validity.Valid view value) :
    validity.Valid (followReferences resources steps view) value := by
  induction steps generalizing view with
  | zero => exact validity.empty view value
  | succ steps ih =>
    unfold followReferences
    split
    case h_1 text named =>
      split
      case h_1 target selected => exact ih (validity.reference view value text target named selected valid)
      case h_2 => exact validity.empty view value
    case h_2 => exact valid

/-- A value is valid where the references lead. -/
theorem resolved_valid {view : SchemaView} {value : Json} (valid : validity.Valid view value) :
    validity.Valid (view.resolved resources) value := followReferences_valid valid

/-- What is chosen among. -/
theorem choice_spec {node : Json} {branches : List Json} (chosen : choice node = some branches) :
    ∃ name, (name = "anyOf" ∨ name = "oneOf") ∧ keyword node name = some (.arr branches) := by
  unfold choice at chosen
  split at chosen
  case h_1 found among =>
    split at chosen
    case isTrue => cases chosen
    case isFalse =>
      obtain rfl := Option.some.inj chosen
      rcases Option.or_eq_some_iff.mp among with here | ⟨-, there⟩
      · exact ⟨"anyOf", .inl rfl, here⟩
      · exact ⟨"oneOf", .inr rfl, there⟩
  case h_2 => cases chosen

/-- A valid value is valid at a branch. -/
theorem expand_valid {levels : ℕ} {view : SchemaView} {value : Json}
    (valid : validity.Valid view value) :
    ∃ branch ∈ expand resources levels view, validity.Valid branch value := by
  induction levels generalizing view with
  | zero => exact ⟨_, List.mem_singleton_self _, resolved_valid valid⟩
  | succ levels ih =>
    unfold expand
    dsimp only
    split
    case h_1 branches chosen =>
      obtain ⟨name, keyed, branching⟩ := choice_spec chosen
      obtain ⟨branch, mem, valid⟩ :=
        validity.branch _ value name branches keyed branching (resolved_valid valid)
      obtain ⟨leaf, among, valid⟩ := ih valid
      exact ⟨leaf, List.mem_flatMap.mpr ⟨branch, mem, among⟩, valid⟩
    case h_2 => exact ⟨_, List.mem_singleton_self _, resolved_valid valid⟩

/-- A value is one of the choices. -/
theorem expanded_admits {static : Static} {value : Json} (admits : static.Admits validity value) :
    ∃ a ∈ static.expanded resources, a.Admits validity value := by
  obtain ⟨alternative, mem, admits⟩ := static_admits_iff.mp admits
  have among {a : Alternative} (expanded : a ∈ alternative.expanded resources) :
      a ∈ static.expanded resources := List.mem_flatMap.mpr ⟨alternative, mem, expanded⟩
  rcases alternative with schema | _ | _ | _
  · obtain ⟨branch, listed, valid⟩ := expand_valid admits
    exact ⟨.view branch, among (List.mem_map_of_mem listed), valid⟩
  · exact ⟨_, among (List.mem_singleton_self _), admits⟩
  · exact ⟨_, among (List.mem_singleton_self _), admits⟩
  · exact ⟨_, among (List.mem_singleton_self _), admits⟩

variable {repr : ℚ → String}

/-- The values of an alternative list everything it admits. -/
theorem alternative_values {alternative : Alternative} {entries : List (String × Json)}
    (listed : alternative.values repr resources = some entries) {value : Json}
    (admits : alternative.Admits validity value) : jsonKey repr value ∈ Dict.keys entries := by
  rcases alternative with schema | constant | _ | _
  · have valid : validity.Valid (schema.resolved resources) value := resolved_valid admits
    unfold Alternative.values at listed
    dsimp only at listed
    split at listed
    case h_1 constant here =>
      obtain rfl := Option.some.inj listed
      rw [jsonKey_of_equal repr (validity.const _ value constant here valid)]
      exact List.mem_singleton_self _
    case h_2 values _ here =>
      obtain rfl := Option.some.inj listed
      obtain ⟨allowed, mem, equal⟩ := validity.enum _ value values here valid
      rw [jsonKey_of_equal repr equal]
      exact List.mem_map_of_mem (List.mem_map_of_mem mem)
    case h_3 here _ =>
      obtain rfl := Option.some.inj listed
      obtain ⟨_ | _, rfl⟩ := validity.boolean _ value here valid
      · exact List.mem_cons_of_mem _ (List.mem_singleton_self _)
      · exact List.mem_cons_self
    case h_4 here _ =>
      obtain rfl := Option.some.inj listed
      obtain rfl := validity.null _ value here valid
      exact List.mem_singleton_self _
    case h_5 => cases listed
  · obtain rfl := Option.some.inj listed
    obtain rfl : value = constant := admits
    exact List.mem_singleton_self _
  · cases listed
  · cases listed

/-- A static value whose values can be enumerated lists every value it admits. -/
theorem values_admits {static : Static} {allowed : List (String × Json)}
    (listed : values repr resources static = some allowed) {value : Json}
    (admits : static.Admits validity value) : jsonKey repr value ∈ Dict.keys allowed := by
  obtain ⟨parts, each, rfl⟩ := Option.map_eq_some_iff.mp listed
  obtain ⟨alternative, mem, admits⟩ := expanded_admits admits
  have all := List.forall₂_of_mapM each
  rw [Dict.mem_keys_ofList]
  obtain ⟨entries, among, enumerated⟩ := List.Forall₂.exists_of_mem_left all mem
  have known := alternative_values enumerated admits
  obtain ⟨entry, at_, same⟩ := List.mem_map.mp known
  exact List.mem_map.mpr ⟨entry, List.mem_flatten.mpr ⟨entries, among, at_⟩, same⟩

end Admission

/-! ## Leaves -/

section Leaves

variable {resources : SchemaResources} {validity : Validity resources} {repr : ℚ → String}
  {tables : CharTables} {leaf : LeafConditionPlan} {static : Static}

/-- What a strict verdict says: no operand is null, and none equals an admitted value. -/
theorem verdict_spec {b : Bool} (said : verdict repr resources leaf static = (some b, true)) :
    ∃ positive, ConditionOperator.positive leaf.operator = some positive ∧ b = !positive ∧
      ∀ operand ∈ leafOperands leaf, operand ≠ .null ∧
        ∀ value, static.Admits validity value → jsonEqual value operand = false := by
  unfold verdict at said
  split at said
  case h_1 entry rest positive listed sign =>
    dsimp only at said
    split at said
    case isTrue => cases (Prod.mk.inj said).1
    case isFalse present =>
      split at said
      case isTrue apart =>
        refine ⟨positive, sign, (Option.some.inj (Prod.mk.inj said).1).symm, fun operand mem => ⟨?_,
          ?_⟩⟩
        · rintro rfl
          exact present (List.any_eq_true.mpr ⟨_, mem, rfl⟩)
        · intro value admits
          refine Bool.eq_false_iff.mpr fun equal => ?_
          rw [Bool.not_eq_true', List.any_eq_false] at apart
          have key := jsonKey_of_equal repr equal
          refine apart (jsonKey repr operand) (List.mem_map_of_mem mem) (decide_eq_true ?_)
          exact key ▸ values_admits listed admits
      case isFalse =>
        split at said
        case isTrue => cases (Prod.mk.inj said).2
        case isFalse => cases (Prod.mk.inj said).2
  case h_2 => cases (Prod.mk.inj said).1

/-- Null equals null only. -/
theorem jsonEqual_null {operand : Json} (present : operand ≠ .null) :
    jsonEqual .null operand = false := by
  rcases operand with _ | _ | _ | _ | _ | _ | _
  · exact absurd rfl present
  all_goals rfl

/-- A strict verdict is the verdict about every admitted value and about an absent one. -/
theorem verdict_sound (formed : OperandFormed leaf) {b : Bool}
    (said : verdict repr resources leaf static = (some b, true)) {value : Option Json}
    (admits : ∀ v ∈ value, static.Admits validity v) : leafVerdict tables leaf value = .ok b := by
  obtain ⟨positive, sign, rfl, apart⟩ := verdict_spec said
  have unequal (operand : Json) (mem : operand ∈ leafOperands leaf) :
      jsonEqual (value.getD .null) operand = false := by
    obtain ⟨present, other⟩ := apart operand mem
    rcases value with _ | v
    · exact jsonEqual_null present
    · exact other v (admits v rfl)
  have member (items : List Json) (some : items ≠ [])
      (mem : ∀ item ∈ items, item ∈ leafOperands leaf) :
      memberLeaf value (.arr items) = .ok false := by
    rcases items with _ | ⟨item, items⟩
    · exact absurd rfl some
    · refine congrArg Except.ok (List.any_eq_false.mpr fun other among => ?_)
      exact Bool.eq_false_iff.mp (unequal other (mem other among))
  rcases leaf with ⟨source, operator, operand, comparison, pattern⟩
  rcases operator <;> try cases sign
  case equals => exact congrArg Except.ok (unequal operand (List.mem_singleton_self _))
  case notEquals =>
    exact congrArg (fun equal => Except.ok !equal) (unequal operand (List.mem_singleton_self _))
  case isIn =>
    obtain ⟨items, some, rfl⟩ := formed
    exact member items some fun item mem => mem
  case notIn =>
    obtain ⟨items, some, rfl⟩ := formed
    exact Except.bind_eq_ok.mpr ⟨_, member items some fun item mem => mem, rfl⟩

end Leaves

/-! ## Conditions -/

section Conditions

mutual

/-- A verdict is what is known about the formula. -/
theorem combine_eq (verdicts : LeafConditionPlan → Option Bool) : (plan : ConditionPlan) →
    combine verdicts plan = (conditionFormula plan).estimate verdicts
  | .leaf _ => rfl
  | .all operands => congrArg Formula.conjunction (combineAll_eq verdicts operands)
  | .any operands => congrArg Formula.disjunction (combineAll_eq verdicts operands)
  | .not operand => congrArg (Option.map _) (combine_eq verdicts operand)

/-- Verdicts are what is known about formulas. -/
theorem combineAll_eq (verdicts : LeafConditionPlan → Option Bool) : (operands : List ConditionPlan) →
    combineAll verdicts operands = Formula.estimates verdicts (conditionFormulas operands)
  | [] => rfl
  | operand :: rest => congrArg₂ List.cons (combine_eq verdicts operand) (combineAll_eq verdicts rest)

end

variable {resources : SchemaResources} (validity : Validity resources) (resolve : String → Static)

/-- The static value of every pointer admits the value that the pointer finds. -/
def ResolverAdmits (context : Json) : Prop :=
  ∀ pointer value, lookupPointer pointer context = .ok (some value) →
    (resolve pointer).Admits validity value

variable {validity resolve} {repr : ℚ → String} {tables : CharTables} {context : Json}

/-- The first value that is present. -/
theorem firstPresent_spec {candidates : List (Option Json)} {value : Json}
    (found : firstPresent candidates = some value) : some value ∈ candidates := by
  obtain ⟨candidate, mem, kept⟩ := List.exists_of_findSome?_eq_some found
  obtain ⟨same, -⟩ := Option.filter_eq_some_iff.mp kept
  exact same ▸ mem

/-- The static value of a short source admits its value. -/
theorem sourceStatic_admits (admits : ResolverAdmits validity resolve context) {source : BindingPlan}
    (formed : SourceFormed source) (short : SourceShort source) {value : Json}
    (found : sourceValue context source = some value) :
    (sourceStatic resolve source).Admits validity value := by
  have looked {pointer : String} (valid : isJsonPointer pointer = true) (fits : PointerShort pointer)
      (at_ : valueAt context pointer = some value) : (resolve pointer).Admits validity value :=
    admits pointer value ((lookupPointer_eq_ok valid).mpr ⟨fits, at_.symm⟩)
  rcases source with constant | ⟨pointer, _ | default⟩ | ⟨members, _ | default⟩ | entries
  · have kept : (some constant).filter isPresent = some value := found
    obtain ⟨same, -⟩ := Option.filter_eq_some_iff.mp kept
    exact static_admits_iff.mpr ⟨_, List.mem_singleton_self _, (Option.some.inj same).symm⟩
  · exact looked formed short (List.mem_singleton.mp (firstPresent_spec found)).symm
  · exact formed.elim
  · obtain ⟨pointer, mem, at_⟩ := List.mem_map.mp (firstPresent_spec found)
    exact union_admits (List.mem_map_of_mem mem)
      (looked (formed.2 pointer mem) (short pointer mem) at_)
  · exact formed.elim
  · exact formed.elim

/-- The strict verdict of a short leaf is its truth value. -/
theorem leafVerdictOf_sound (admits : ResolverAdmits validity resolve context)
    {leaf : LeafConditionPlan}
    (formed : LeafFormed leaf) (short : LeafShort leaf) {b : Bool}
    (said : leafVerdictOf repr resources resolve leaf = some b) :
    b = true ↔ LeafHolds tables context leaf := by
  unfold leafVerdictOf at said
  split at said
  case h_1 answer strict =>
    rw [said] at strict
    have ruled : leafVerdict tables leaf (sourceValue context leaf.source) = .ok b :=
      verdict_sound formed.operand strict fun value found =>
        sourceStatic_admits admits formed.source short found
    unfold LeafHolds
    rw [ruled, Except.ok.injEq]
  case h_2 => cases said

/-- A verdict about a condition is the result of every evaluation that ends. -/
theorem checkCondition_sound (admits : ResolverAdmits validity resolve context) {plan : ConditionPlan}
    (formed : ConditionFormed plan) {b c : Bool}
    (checked : checkCondition repr resources resolve plan = .ok (some b))
    (evaluated : evaluateCondition tables context plan = .ok c) : c = b := by
  obtain ⟨-, -, same⟩ := Except.bind_eq_ok.mp checked
  have said := (combine_eq _ plan).symm.trans (Except.pure_eq_ok.mp same)
  -- A leaf that cannot be read gets the truth value of its verdict: no evaluation that ends reads it.
  let holds (leaf : LeafConditionPlan) : Prop :=
    (LeafShort leaf ∧ LeafHolds tables context leaf) ∨
      (¬ LeafShort leaf ∧ leafVerdictOf repr resources resolve leaf = some true)
  have read {leaf : LeafConditionPlan} (short : LeafShort leaf) :
      holds leaf ↔ LeafHolds tables context leaf := by
    refine ⟨fun h => ?_, fun h => .inl ⟨short, h⟩⟩
    rcases h with ⟨-, h⟩ | ⟨long, -⟩
    · exact h
    · exact absurd short long
  have exact_ (leaf : LeafConditionPlan) (mem : leaf ∈ (conditionFormula plan).atoms) :
      Formula.Exact holds LeafShort (evaluateLeaf tables · context) leaf := by
    intro answer
    rw [exact_evaluateLeaf tables (leaves_formed plan formed leaf mem) context answer]
    exact and_congr_right fun short => by rw [read short]
  have sound (leaf : LeafConditionPlan) (mem : leaf ∈ (conditionFormula plan).atoms) :
      Formula.Estimates holds (leafVerdictOf repr resources resolve) leaf := by
    intro answer known
    by_cases short : LeafShort leaf
    · rw [read short]
      exact leafVerdictOf_sound admits (leaves_formed plan formed leaf mem) short known
    · have truth : holds leaf ↔ leafVerdictOf repr resources resolve leaf = some true := by
        refine ⟨fun h => ?_, fun h => .inr ⟨short, h⟩⟩
        rcases h with ⟨fits, -⟩ | ⟨-, h⟩
        · exact absurd fits short
        · exact h
      rw [truth, known, Option.some.injEq]
  have estimated := Formula.estimate_sound _ sound b said
  rw [evaluateCondition_eq tables context plan formed] at evaluated
  obtain ⟨-, truth⟩ := (Formula.run_eq_ok _ exact_ c).mp evaluated
  exact Bool.eq_iff_iff.mpr (truth.trans estimated.symm)

/-- A verdict is what the evaluation returns exactly when every pointer that the evaluation reads is
short. -/
theorem checkCondition_iff_reads (admits : ResolverAdmits validity resolve context)
    {plan : ConditionPlan} (formed : ConditionFormed plan) {b : Bool}
    (checked : checkCondition repr resources resolve plan = .ok (some b)) :
    evaluateCondition tables context plan = .ok b ↔ ConditionReads tables context plan := by
  rw [← evaluateCondition_succeeds formed]
  constructor
  · intro evaluated
    exact ⟨b, evaluated⟩
  · rintro ⟨c, evaluated⟩
    exact checkCondition_sound admits formed checked evaluated ▸ evaluated

end Conditions

end Foliqant.Compiler
