import Foliqant.Compiler.Conditions

/-!
# Evaluation of accepted conditions and bindings

What a compiled condition or binding does over any context. The one limit of the evaluator that the
contracts do not imply is the number of parts of a pointer: an evaluation that reads a longer one fails.
-/

namespace Foliqant.Compiler

open Foliqant.Core

/-! ## What a pointer leads to -/

/-- At most as many parts as a value may nest. -/
def PointerShort (pointer : String) : Prop :=
  pointer.toList = [] ∨ (pointerParts pointer).length ≤ MAX_JSON_DEPTH

/-- What a pointer leads to, however long it is. -/
def valueAt (context : Json) (pointer : String) : Option Json :=
  if pointer.toList = [] then some context else lookupParts context (pointerParts pointer)

/-- A short pointer reads its value, and only a short one is read. -/
theorem lookupPointer_eq_ok {pointer : String} (valid : isJsonPointer pointer = true) {context : Json}
    {found : Option Json} :
    lookupPointer pointer context = .ok found ↔ PointerShort pointer ∧
    found = valueAt context pointer := by
  have short : pointerValid pointer = true ↔ PointerShort pointer := by
    unfold pointerValid PointerShort
    unfold isJsonPointer at valid
    rw [valid, Bool.true_and, Bool.or_eq_true, decide_eq_true_eq, decide_eq_true_eq]
  unfold lookupPointer valueAt
  by_cases fits : PointerShort pointer
  · rw [short.mpr fits, Bool.not_true, if_neg Bool.noConfusion, eq_comm]
    rw [and_iff_right fits]
    split
    · rw [Except.ok.injEq, eq_comm]
    · rw [Except.ok.injEq, eq_comm]
  · rw [Bool.eq_false_iff.mpr (mt short.mp fits), Bool.not_false, if_pos rfl]
    exact iff_of_false nofun fun h => fits h.1

/-- A pointer that is too long fails with an invalid configuration. -/
theorem lookupPointer_long {pointer : String} (long : ¬ PointerShort pointer) (context : Json) :
    lookupPointer pointer context = fail .invalidConfiguration := by
  have invalid : pointerValid pointer = false := by
    unfold pointerValid
    rw [Bool.and_eq_false_iff]
    right
    rw [Bool.or_eq_false_iff, decide_eq_false_iff_not, decide_eq_false_iff_not]
    exact not_or.mp long
  unfold lookupPointer
  rw [invalid]
  rfl

/-- Short pointers read their values, and only short ones are read. -/
theorem lookupMembers_eq_ok {members : List String} (valid : ∀ p ∈ members, isJsonPointer p = true)
    {context : Json} {found : List (Option Json)} :
    lookupMembers context members = .ok found ↔
      (∀ p ∈ members, PointerShort p) ∧ found = members.map (valueAt context) := by
  induction members generalizing found with
  | nil =>
    show Except.ok [] = .ok found ↔ _
    rw [Except.ok.injEq, eq_comm]
    exact (and_iff_right nofun).symm
  | cons pointer members ih =>
    obtain ⟨here, others⟩ := List.forall_mem_cons.mp valid
    rw [List.forall_mem_cons, List.map_cons]
    constructor
    · intro looked
      obtain ⟨first, one, looked⟩ := Except.bind_eq_ok.mp looked
      obtain ⟨rest, all, same⟩ := Except.bind_eq_ok.mp looked
      obtain ⟨fits, rfl⟩ := (lookupPointer_eq_ok here).mp one
      obtain ⟨fit, rfl⟩ := (ih others).mp all
      exact ⟨⟨fits, fit⟩, (Except.pure_eq_ok.mp same).symm⟩
    · rintro ⟨⟨fits, fit⟩, rfl⟩
      exact Except.bind_eq_ok.mpr ⟨_, (lookupPointer_eq_ok here).mpr ⟨fits, rfl⟩,
        Except.bind_eq_ok.mpr ⟨_, (ih others).mpr ⟨fit, rfl⟩, rfl⟩⟩

/-- A long candidate makes the lookup of all fail. -/
theorem lookupMembers_long {members : List String} (valid : ∀ p ∈ members, isJsonPointer p = true)
    (long : ¬ ∀ p ∈ members, PointerShort p) (context : Json) :
    lookupMembers context members = fail .invalidConfiguration := by
  induction members with
  | nil => exact absurd nofun long
  | cons pointer members ih =>
    obtain ⟨here, others⟩ := List.forall_mem_cons.mp valid
    by_cases fits : PointerShort pointer
    · have rest : ¬ ∀ p ∈ members, PointerShort p :=
        fun all => long (List.forall_mem_cons.mpr ⟨fits, all⟩)
      unfold lookupMembers
      rw [(lookupPointer_eq_ok here).mpr ⟨fits, rfl⟩, ih others rest]
      rfl
    · unfold lookupMembers
      rw [lookupPointer_long fits]
      rfl

/-! ## Sources of conditions -/

/-- A source as it is compiled. -/
def SourceFormed : BindingPlan → Prop
  | .literal value => depth value ≤ MAX_JSON_DEPTH
  | .pointer pointer none => isJsonPointer pointer = true
  | .firstOf members none => members ≠ [] ∧ ∀ p ∈ members, isJsonPointer p = true
  | _ => False

/-- The pointers of a source are short. -/
def SourceShort : BindingPlan → Prop
  | .pointer pointer _ => PointerShort pointer
  | .firstOf members _ => ∀ p ∈ members, PointerShort p
  | _ => True

/-- The value of a source, however long its pointers are; null counts as absent. -/
def sourceValue (context : Json) : BindingPlan → Option Json
  | .literal value => (some value).filter isPresent
  | .pointer pointer _ => firstPresent [valueAt context pointer]
  | .firstOf members _ => firstPresent (members.map (valueAt context))
  | .fields _ => none

/-- A source with short pointers reads its value, and only such a one is read. -/
theorem resolveSource_eq_ok {source : BindingPlan} (formed : SourceFormed source) {context : Json}
    {found : Option Json} :
    resolveSource source context = .ok found ↔
      SourceShort source ∧ found = sourceValue context source := by
  rcases source with value | ⟨pointer, _ | default⟩ | ⟨members, _ | default⟩ | entries
  · have frozen : freezeJson MAX_JSON_DEPTH value = .ok value := freezeJson_eq_ok.mpr ⟨formed, rfl⟩
    show (freezeJson MAX_JSON_DEPTH value >>= _) = _ ↔ True ∧ _
    rw [frozen, true_and]
    show Except.ok _ = _ ↔ _
    rw [Except.ok.injEq, eq_comm]
    rfl
  · show (lookupPointer pointer context >>= _) = _ ↔ PointerShort pointer ∧ _
    rw [Except.bind_eq_ok]
    constructor
    · rintro ⟨value, looked, same⟩
      obtain ⟨fits, rfl⟩ := (lookupPointer_eq_ok formed).mp looked
      exact ⟨fits, (Except.pure_eq_ok.mp same).symm⟩
    · rintro ⟨fits, rfl⟩
      exact ⟨_, (lookupPointer_eq_ok formed).mpr ⟨fits, rfl⟩, rfl⟩
  · exact formed.elim
  · obtain ⟨some, valid⟩ := formed
    have branch : resolveSource (.firstOf members none) context =
        (do return firstPresent (← lookupMembers context members)) := by
      show (if members = [] then _ else _) = _
      rw [if_neg some]
    rw [branch]
    show (lookupMembers context members >>= _) = _ ↔ (∀ p ∈ members, PointerShort p) ∧ _
    rw [Except.bind_eq_ok]
    constructor
    · rintro ⟨values, looked, same⟩
      obtain ⟨fits, rfl⟩ := (lookupMembers_eq_ok valid).mp looked
      exact ⟨fits, (Except.pure_eq_ok.mp same).symm⟩
    · rintro ⟨fits, rfl⟩
      exact ⟨_, (lookupMembers_eq_ok valid).mpr ⟨fits, rfl⟩, rfl⟩
  · exact formed.elim
  · exact formed.elim

/-! ## Leaves -/

section Leaves

variable (tables : CharTables)

/-- The verdict of a leaf about the value of its source. -/
def leafVerdict (leaf : LeafConditionPlan) (value : Option Json) : Except Exn Bool :=
  match leaf.operator with
  | .present => flagLeaf value.isSome leaf.operand
  | .empty => flagLeaf (isEmpty value) leaf.operand
  | .equals => .ok (jsonEqual (value.getD .null) leaf.operand)
  | .notEquals => .ok (!jsonEqual (value.getD .null) leaf.operand)
  | .isIn => memberLeaf value leaf.operand
  | .notIn => do return !(← memberLeaf value leaf.operand)
  | .gt => compareLeaf .gt leaf.operand value
  | .gte => compareLeaf .gte leaf.operand value
  | .lt => compareLeaf .lt leaf.operand value
  | .lte => compareLeaf .lte leaf.operand value
  | .matches =>
      match leaf.pattern, leaf.operand with
      | some pattern, .str _ => .ok <| match value with
          | some (.str text) => text.length ≤ MAX_MATCH_LENGTH && pattern.fullmatch tables text
          | _ => false
      | _, _ => fail .invalidConfiguration
  | .length =>
      match leaf.comparison, leaf.operand with
      | some comparison, .int operand => .ok <| match value.bind Json.length? with
          | some length => comparison.compare length operand
          | none => false
      | _, _ => fail .invalidConfiguration

/-- A leaf reads its source and compares what it finds. -/
theorem evaluateLeaf_eq (leaf : LeafConditionPlan) (context : Json) :
    evaluateLeaf tables leaf context = resolveSource leaf.source context >>=
    leafVerdict tables leaf := by
  rfl

/-- The operand of a leaf as it is compiled. -/
def OperandFormed (leaf : LeafConditionPlan) : Prop :=
  match leaf.operator with
  | .present | .empty => ∃ flag, leaf.operand = .bool flag
  | .equals | .notEquals => True
  | .isIn | .notIn => ∃ items, items ≠ [] ∧ leaf.operand = .arr items
  | .gt | .gte | .lt | .lte => ∃ x, leaf.operand.number? = some x
  | .matches => ∃ pattern text, leaf.pattern = some pattern ∧ leaf.operand = .str text
  | .length => ∃ comparison count, leaf.comparison = some comparison ∧ leaf.operand = .int count

/-- A comparison with a number never raises. -/
theorem compareLeaf_succeeds {comparison : Comparison} {operand : Json} {x : ℚ}
    (number : operand.number? = some x) (value : Option Json) :
    (compareLeaf comparison operand value).Succeeds := by
  unfold compareLeaf
  rw [number]
  exact ⟨_, rfl⟩

/-- Membership in a list that is not empty never raises. -/
theorem memberLeaf_succeeds {items : List Json} (some : items ≠ []) (value : Option Json) :
    (memberLeaf value (.arr items)).Succeeds := by
  rcases items with _ | ⟨item, items⟩
  · exact absurd rfl some
  · exact ⟨_, rfl⟩

/-- Every value has a verdict. -/
theorem leafVerdict_succeeds {leaf : LeafConditionPlan} (formed : OperandFormed leaf)
    (value : Option Json) : (leafVerdict tables leaf value).Succeeds := by
  unfold OperandFormed at formed
  unfold leafVerdict
  rcases leaf with ⟨source, operator, operand, comparison, pattern⟩
  rcases operator <;> dsimp only at formed ⊢
  case present | empty =>
    obtain ⟨flag, rfl⟩ := formed
    exact ⟨_, rfl⟩
  case equals | notEquals => exact ⟨_, rfl⟩
  case isIn =>
    obtain ⟨items, some, rfl⟩ := formed
    exact memberLeaf_succeeds some value
  case notIn =>
    obtain ⟨items, some, rfl⟩ := formed
    obtain ⟨b, member⟩ := memberLeaf_succeeds some value
    exact ⟨!b, Except.bind_eq_ok.mpr ⟨b, member, rfl⟩⟩
  case gt | gte | lt | lte =>
    obtain ⟨x, number⟩ := formed
    exact compareLeaf_succeeds number value
  case «matches» =>
    obtain ⟨pattern, text, rfl, rfl⟩ := formed
    exact ⟨_, rfl⟩
  case length =>
    obtain ⟨comparison, count, rfl, rfl⟩ := formed
    exact ⟨_, rfl⟩

/-- A leaf as the compiler makes it. -/
structure LeafFormed (leaf : LeafConditionPlan) : Prop where
  source : SourceFormed leaf.source
  operand : OperandFormed leaf

/-- The verdict of a leaf about the value of its source is true. -/
def LeafHolds (context : Json) (leaf : LeafConditionPlan) : Prop :=
  leafVerdict tables leaf (sourceValue context leaf.source) = .ok true

/-- A leaf that reads only short pointers. -/
def LeafShort (leaf : LeafConditionPlan) : Prop := SourceShort leaf.source

/-- A leaf is decided exactly where it reads short pointers. -/
theorem exact_evaluateLeaf {leaf : LeafConditionPlan} (formed : LeafFormed leaf) (context : Json) :
    Formula.Exact (LeafHolds tables context) LeafShort (evaluateLeaf tables · context) leaf := by
  intro b
  obtain ⟨verdict, said⟩ := leafVerdict_succeeds tables formed.operand
    (sourceValue context leaf.source)
  have truth : (b = true ↔ LeafHolds tables context leaf) ↔ verdict = b := by
    unfold LeafHolds
    rw [said, Except.ok.injEq]
    rcases b <;> rcases verdict <;> decide
  rw [truth]
  show evaluateLeaf tables leaf context = .ok b ↔ SourceShort leaf.source ∧ _
  rw [evaluateLeaf_eq, Except.bind_eq_ok]
  constructor
  · rintro ⟨value, resolved, ruled⟩
    obtain ⟨short, rfl⟩ := (resolveSource_eq_ok formed.source).mp resolved
    exact ⟨short, Except.ok.inj (said.symm.trans ruled)⟩
  · rintro ⟨short, rfl⟩
    exact ⟨_, (resolveSource_eq_ok formed.source).mpr ⟨short, rfl⟩, said⟩

end Leaves

/-! ## Conditions -/

mutual

/-- A condition as a formula over its leaves. -/
def conditionFormula : ConditionPlan → Formula LeafConditionPlan
  | .leaf condition => .atom condition
  | .all operands => .all (conditionFormulas operands)
  | .any operands => .any (conditionFormulas operands)
  | .not operand => .not (conditionFormula operand)

/-- Conditions as formulas. -/
def conditionFormulas : List ConditionPlan → List (Formula LeafConditionPlan)
  | [] => []
  | operand :: rest => conditionFormula operand :: conditionFormulas rest

end

mutual

/-- A condition as it is compiled. -/
def ConditionFormed : ConditionPlan → Prop
  | .leaf condition => LeafFormed condition
  | .all operands | .any operands => operands ≠ [] ∧ ConditionsFormed operands
  | .not operand => ConditionFormed operand

/-- Conditions as the compiler makes them. -/
def ConditionsFormed : List ConditionPlan → Prop
  | [] => True
  | operand :: rest => ConditionFormed operand ∧ ConditionsFormed rest

end

mutual

/-- The leaves of a compiled condition are compiled. -/
theorem leaves_formed : (plan : ConditionPlan) → ConditionFormed plan →
    ∀ leaf ∈ (conditionFormula plan).atoms, LeafFormed leaf
  | .leaf _, formed, _, mem => List.mem_singleton.mp mem ▸ formed
  | .all operands, formed, leaf, mem => leavesOf_formed operands formed.2 leaf mem
  | .any operands, formed, leaf, mem => leavesOf_formed operands formed.2 leaf mem
  | .not operand, formed, leaf, mem => leaves_formed operand formed leaf mem

/-- The leaves of compiled conditions are compiled. -/
theorem leavesOf_formed : (operands : List ConditionPlan) → ConditionsFormed operands →
    ∀ leaf ∈ Formula.atomsOf (conditionFormulas operands), LeafFormed leaf
  | [], _, _, mem => absurd mem List.not_mem_nil
  | operand :: rest, formed, leaf, mem => by
      rcases List.mem_append.mp mem with here | there
      · exact leaves_formed operand formed.1 leaf here
      · exact leavesOf_formed rest formed.2 leaf there

end

section Conditions

variable (tables : CharTables) (context : Json)

mutual

/-- The evaluation of a condition is the evaluation of its formula. -/
theorem evaluateCondition_eq : (plan : ConditionPlan) → ConditionFormed plan →
    evaluateCondition tables context plan = (conditionFormula plan).run
    (evaluateLeaf tables · context)
  | .leaf _, _ => rfl
  | .all [], formed => absurd rfl formed.1
  | .all (operand :: rest), formed => evaluateAll_eq (operand :: rest) formed.2
  | .any [], formed => absurd rfl formed.1
  | .any (operand :: rest), formed => evaluateAny_eq (operand :: rest) formed.2
  | .not operand, formed => by
      show (evaluateCondition tables context operand >>= fun value => pure !value) = _
      rw [evaluateCondition_eq operand formed]
      rfl

/-- All of several conditions, as formulas are decided. -/
theorem evaluateAll_eq : (operands : List ConditionPlan) → ConditionsFormed operands →
    evaluateAll tables context operands =
      Formula.runAll (evaluateLeaf tables · context) (conditionFormulas operands)
  | [], _ => rfl
  | operand :: rest, formed => by
      show (evaluateCondition tables context operand >>= fun value =>
        if value = true then evaluateAll tables context rest else pure false) = _
      rw [evaluateCondition_eq operand formed.1, evaluateAll_eq rest formed.2]
      rfl

/-- Any of several conditions, as formulas are decided. -/
theorem evaluateAny_eq : (operands : List ConditionPlan) → ConditionsFormed operands →
    evaluateAny tables context operands =
      Formula.runAny (evaluateLeaf tables · context) (conditionFormulas operands)
  | [], _ => rfl
  | operand :: rest, formed => by
      show (evaluateCondition tables context operand >>= fun value =>
        if value = true then pure true else evaluateAny tables context rest) = _
      rw [evaluateCondition_eq operand formed.1, evaluateAny_eq rest formed.2]
      rfl

end

/-- Every pointer that an evaluation reads is short. An operand of `all` is read when the ones before it
hold, an operand of `any` when the ones before it do not. -/
def ConditionReads (plan : ConditionPlan) : Prop :=
  (conditionFormula plan).Reaches (LeafHolds tables context) LeafShort

variable {tables context}

/-- A compiled condition is decided exactly where every pointer read is short. -/
theorem evaluateCondition_succeeds {plan : ConditionPlan} (formed : ConditionFormed plan) :
    (∃ b, evaluateCondition tables context plan = .ok b) ↔ ConditionReads tables context plan := by
  rw [evaluateCondition_eq tables context plan formed]
  exact Formula.run_succeeds fun leaf mem =>
    exact_evaluateLeaf tables (leaves_formed plan formed leaf mem) context

end Conditions

/-! ## Bindings -/

/-- A binding as it is compiled, apart from the fields of an object. -/
def BindingFormed : BindingPlan → Prop
  | .literal value => depth value ≤ MAX_JSON_DEPTH
  | .pointer pointer default =>
      isJsonPointer pointer = true ∧ ∀ value ∈ default, depth value ≤ MAX_JSON_DEPTH
  | .firstOf members default =>
      members ≠ [] ∧ (∀ p ∈ members, isJsonPointer p = true) ∧
        ∀ value ∈ default, depth value ≤ MAX_JSON_DEPTH
  | .fields _ => False

/-- An output as the compiler makes it. -/
def OutputFormed : BindingPlan → Prop
  | .fields entries =>
      entries ≠ [] ∧ (Dict.keys entries).Nodup ∧ ∀ entry ∈ entries, BindingFormed entry.2
  | plan => BindingFormed plan

/-- What a binding finds, however long its pointers are. -/
def bindingFound (context : Json) : BindingPlan → Option Json
  | .literal value => some value
  | .pointer pointer default => (valueAt context pointer).or default
  | .firstOf members default => (firstPresent (members.map (valueAt context))).or default
  | .fields _ => none

/-- The pointers of a binding are short. -/
def BindingShort : BindingPlan → Prop
  | .pointer pointer _ => PointerShort pointer
  | .firstOf members _ => ∀ p ∈ members, PointerShort p
  | _ => True

/-- Every pointer that is read is short; a field is read when the ones before it were found. -/
def FieldsRead (context : Json) : Bindings → Prop
  | [] => True
  | (_, binding) :: rest =>
      BindingShort binding ∧ ((bindingFound context binding).isSome = true → FieldsRead context rest)

/-- A binding reads only short pointers. -/
def BindingReads (context : Json) : BindingPlan → Prop
  | .fields entries => FieldsRead context entries
  | plan => BindingShort plan

/-- A value, or a missing binding. -/
def Resolves {α : Type} (result : Except Exn α) : Prop :=
  result.Succeeds ∨ result = fail .missingBinding

variable {context : Json}

/-- What a binding makes of the value found. -/
theorem resolveFound_eq {found default : Option Json}
    (fits : ∀ value ∈ default, depth value ≤ MAX_JSON_DEPTH) :
    resolveFound found default =
      match found.or default with
      | some value => .ok value
      | none => fail .missingBinding := by
  rcases found with _ | value
  · rcases default with _ | value
    · rfl
    · exact freezeJson_eq_ok.mpr ⟨fits value rfl, rfl⟩
  · rfl

/-- A binding whose pointers are short resolves to what it finds. -/
theorem resolveBinding_short {binding : BindingPlan} (formed : BindingFormed binding)
    (short : BindingShort binding) :
    resolveBinding context binding =
      match bindingFound context binding with
      | some value => .ok value
      | none => fail .missingBinding := by
  rcases binding with value | ⟨pointer, default⟩ | ⟨members, default⟩ | entries
  · exact freezeJson_eq_ok.mpr ⟨formed, rfl⟩
  · show (lookupPointer pointer context >>= fun found => resolveFound found default) = _
    rw [(lookupPointer_eq_ok formed.1).mpr ⟨short, rfl⟩]
    exact resolveFound_eq formed.2
  · show (if members = [] then _ else _) = _
    rw [if_neg formed.1, (lookupMembers_eq_ok formed.2.1).mpr ⟨short, rfl⟩]
    exact resolveFound_eq formed.2.2
  · exact formed.elim

/-- A binding with a long pointer is an invalid configuration. -/
theorem resolveBinding_long {binding : BindingPlan} (formed : BindingFormed binding)
    (long : ¬ BindingShort binding) :
    resolveBinding context binding = fail .invalidConfiguration := by
  rcases binding with value | ⟨pointer, default⟩ | ⟨members, default⟩ | entries
  · exact absurd trivial long
  · show (lookupPointer pointer context >>= fun found => resolveFound found default) = _
    rw [lookupPointer_long long]
    rfl
  · show (if members = [] then _ else _) = _
    rw [if_neg formed.1, lookupMembers_long formed.2.1 long]
    rfl
  · exact formed.elim

/-- A plain binding resolves exactly when its pointers are short. -/
theorem resolves_plain {binding : BindingPlan} (formed : BindingFormed binding) :
    Resolves (resolveBinding context binding) ↔ BindingShort binding := by
  by_cases short : BindingShort binding
  · rw [resolveBinding_short formed short]
    refine iff_of_true ?_ short
    rcases bindingFound context binding with _ | value
    · exact .inr rfl
    · exact .inl ⟨value, rfl⟩
  · rw [resolveBinding_long formed short]
    refine iff_of_false ?_ short
    rintro (⟨_, h⟩ | h) <;> cases h

/-- Bindings of fields resolve exactly when each of them does. -/
theorem resolves_fields {entries : Bindings} {values : Object}
    (names : (Dict.keys values ++ Dict.keys entries).Nodup)
    (formed : ∀ entry ∈ entries, BindingFormed entry.2) :
    Resolves (resolveBindingsFrom context values entries) ↔ FieldsRead context entries := by
  induction entries generalizing values with
  | nil => exact iff_of_true (.inl ⟨values, rfl⟩) trivial
  | cons entry rest ih =>
    obtain ⟨name, binding⟩ := entry
    obtain ⟨here, others⟩ := List.forall_mem_cons.mp formed
    have fresh : name ∉ Dict.keys values := by
      intro mem
      exact List.disjoint_of_nodup_append names mem List.mem_cons_self
    have later (value : Json) : (Dict.keys (values ++ [(name, value)]) ++ Dict.keys rest).Nodup := by
      unfold Dict.keys at names ⊢
      rw [List.map_append, List.append_assoc]
      exact names
    have unfolded : resolveBindingsFrom context values ((name, binding) :: rest) =
        resolveBinding context binding >>= fun value =>
          resolveBindingsFrom context (values ++ [(name, value)]) rest := by
      show (if name ∈ Dict.keys values then _ else _) = _
      rw [if_neg fresh]
    rw [unfolded]
    show _ ↔ BindingShort binding ∧ _
    by_cases short : BindingShort binding
    · rw [resolveBinding_short here short, and_iff_right short]
      rcases bindingFound context binding with _ | value
      · exact iff_of_true (.inr rfl) nofun
      · exact (ih (later value) others).trans (imp_iff_right rfl).symm
    · rw [resolveBinding_long here short]
      refine iff_of_false ?_ fun reads => short reads.1
      rintro (⟨_, h⟩ | h) <;> cases h

/-- A compiled output resolves exactly when it reads only short pointers. -/
theorem resolves_iff {plan : BindingPlan} (formed : OutputFormed plan) :
    Resolves (resolveBinding context plan) ↔ BindingReads context plan := by
  rcases plan with value | ⟨pointer, default⟩ | ⟨members, default⟩ | entries
  · exact resolves_plain formed
  · exact resolves_plain formed
  · exact resolves_plain formed
  · obtain ⟨some, names, formed⟩ := formed
    rcases entries with _ | ⟨entry, entries⟩
    · exact absurd rfl some
    have fields : Resolves (resolveBindingsFrom context [] (entry :: entries)) ↔
        FieldsRead context (entry :: entries) := resolves_fields names formed
    refine Iff.trans ?_ fields
    show Resolves (resolveBindingsFrom context [] (entry :: entries) >>= fun values =>
      pure (JsonText.Value.obj values : Json)) ↔ _
    rcases resolveBindingsFrom context [] (entry :: entries) with error | values
    · refine or_congr (iff_of_false (by rintro ⟨_, h⟩; cases h) (by rintro ⟨_, h⟩; cases h)) ?_
      exact ⟨fun h => congrArg Except.error (Except.error.inj h),
        fun h => congrArg Except.error (Except.error.inj h)⟩
    · exact iff_of_true (.inl ⟨_, rfl⟩) (.inl ⟨_, rfl⟩)

/-! ## What compilation yields -/

/-- An authored value is kept as it is when it is not too deep. -/
theorem freezeAuthored_eq_ok {value frozen : Json} :
    freezeAuthored value = .ok frozen ↔ depth value ≤ MAX_JSON_DEPTH ∧ value = frozen := by
  unfold freezeAuthored
  rw [← freezeJson_eq_ok]
  rcases freezeJson MAX_JSON_DEPTH value with error | value
  · exact iff_of_false nofun nofun
  · exact ⟨fun h => congrArg Except.ok (Except.ok.inj h), fun h => congrArg Except.ok
      (Except.ok.inj h)⟩

/-- The candidates of a choice are pointers, and there is one. -/
theorem candidates_formed (candidates : Candidates) :
    candidates.pointers ≠ [] ∧ ∀ p ∈ candidates.pointers, isJsonPointer p = true := by
  constructor
  · intro none
    have empty := List.map_eq_nil_iff.mp none
    have bounded := candidates.bounded
    rw [empty] at bounded
    exact absurd bounded.1 (by decide)
  · intro p mem
    obtain ⟨pointer, -, rfl⟩ := List.mem_map.mp mem
    exact pointer.property

/-- The compiler makes well-formed sources. -/
theorem compileSource_formed {source : ConditionSource} {plan : BindingPlan}
    (compiled : compileSource source = .ok plan) : SourceFormed plan := by
  rcases source with value | pointer | candidates
  · obtain ⟨frozen, kept, same⟩ := Except.bind_eq_ok.mp compiled
    obtain ⟨fits, rfl⟩ := freezeAuthored_eq_ok.mp kept
    obtain rfl := Except.pure_eq_ok.mp same
    exact fits
  · obtain rfl := Except.ok.inj compiled
    exact pointer.property
  · obtain rfl := Except.ok.inj compiled
    exact candidates_formed candidates

/-- There is a value to be in. -/
theorem inValues_ne_nil (operand : InValues) : operand.values ≠ [] := by
  intro empty
  have bounded := operand.bounded
  rw [empty] at bounded
  exact absurd bounded.1 (by decide)

variable {parse : String → Option Pattern} {casefold : ℕ → List ℕ}

/-- A number is a number. -/
theorem JsonNumber.number?_json (number : JsonNumber) : ∃ x, number.json.number? = some x := by
  rcases number with value | value
  · exact ⟨value, rfl⟩
  · exact ⟨value, rfl⟩

/-- The compiler makes well-formed operands and keeps the source. -/
theorem compileOperator_formed {source : BindingPlan} {operator : AuthoredOperator}
    {leaf : LeafConditionPlan}
    (compiled : compileOperator parse casefold source operator = .ok leaf) :
    leaf.source = source ∧ OperandFormed leaf := by
  rcases operator
  case present operand | empty operand =>
    obtain rfl := Except.ok.inj compiled
    exact ⟨rfl, operand, rfl⟩
  case equals operand | notEquals operand =>
    obtain ⟨frozen, -, same⟩ := Except.bind_eq_ok.mp compiled
    obtain rfl := Except.pure_eq_ok.mp same
    exact ⟨rfl, trivial⟩
  case isIn operand | notIn operand =>
    obtain ⟨frozen, kept, same⟩ := Except.bind_eq_ok.mp compiled
    obtain ⟨-, rfl⟩ := freezeAuthored_eq_ok.mp kept
    obtain rfl := Except.pure_eq_ok.mp same
    exact ⟨rfl, operand.values, inValues_ne_nil operand, rfl⟩
  case gt operand | gte operand | lt operand | lte operand =>
    obtain rfl := Except.ok.inj compiled
    exact ⟨rfl, operand.number?_json⟩
  case «matches» pattern bounded =>
    obtain ⟨done, checked, same⟩ := Except.bind_eq_ok.mp compiled
    obtain rfl := Except.pure_eq_ok.mp same
    -- The parser has a tree for a text that passes the check.
    rcases parsed : parse pattern with _ | tree
    · rw [parsed] at checked
      cases checked
    · exact ⟨rfl, tree, pattern, rfl, rfl⟩
  case length comparison count bounded =>
    obtain rfl := Except.ok.inj compiled
    exact ⟨rfl, comparison, count, rfl, rfl⟩

mutual

/-- The compiler makes well-formed conditions. -/
theorem compileCondition_formed : (authored : AuthoredCondition) → authored.Admitted →
    (plan : ConditionPlan) → compileCondition parse casefold authored = .ok plan →
      ConditionFormed plan
  | .leaf condition, _, plan, compiled => by
      obtain ⟨source, sourced, compiled⟩ := Except.bind_eq_ok.mp compiled
      obtain ⟨leaf, operated, same⟩ := Except.bind_eq_ok.mp compiled
      obtain rfl := Except.pure_eq_ok.mp same
      obtain ⟨rfl, operand⟩ := compileOperator_formed operated
      exact ⟨compileSource_formed sourced, operand⟩
  | .all operands, admitted, plan, compiled => by
      obtain ⟨plans, parts, same⟩ := Except.bind_eq_ok.mp compiled
      obtain rfl := Except.pure_eq_ok.mp same
      obtain ⟨formed, count⟩ := compileConditions_formed operands admitted.2.1 plans parts
      refine ⟨fun empty => ?_, formed⟩
      rw [empty] at count
      exact absurd admitted.1.1 (count ▸ Nat.not_succ_le_self 0)
  | .any operands, admitted, plan, compiled => by
      obtain ⟨plans, parts, same⟩ := Except.bind_eq_ok.mp compiled
      obtain rfl := Except.pure_eq_ok.mp same
      obtain ⟨formed, count⟩ := compileConditions_formed operands admitted.2.1 plans parts
      refine ⟨fun empty => ?_, formed⟩
      rw [empty] at count
      exact absurd admitted.1.1 (count ▸ Nat.not_succ_le_self 0)
  | .not operand, admitted, plan, compiled => by
      obtain ⟨inner, part, same⟩ := Except.bind_eq_ok.mp compiled
      obtain rfl := Except.pure_eq_ok.mp same
      exact compileCondition_formed operand admitted.1 inner part

/-- The compiler makes well-formed conditions, as many as were authored. -/
theorem compileConditions_formed : (operands : List AuthoredCondition) → OperandsAdmitted operands →
    (plans : List ConditionPlan) → compileConditions parse casefold operands = .ok plans →
      ConditionsFormed plans ∧ plans.length = operands.length
  | [], _, plans, compiled => by
      obtain rfl := Except.ok.inj compiled
      exact ⟨trivial, rfl⟩
  | operand :: rest, admitted, plans, compiled => by
      obtain ⟨first, one, compiled⟩ := Except.bind_eq_ok.mp compiled
      obtain ⟨others, all, same⟩ := Except.bind_eq_ok.mp compiled
      obtain rfl := Except.pure_eq_ok.mp same
      obtain ⟨formed, count⟩ := compileConditions_formed rest admitted.2 others all
      exact ⟨⟨compileCondition_formed operand admitted.1 first one, formed⟩, congrArg (· + 1) count⟩

end

/-- A default is kept as it is when it is not too deep. -/
theorem freezeDefault_eq_ok {default frozen : Option Json} :
    freezeDefault default = .ok frozen →
      default = frozen ∧ ∀ value ∈ frozen, depth value ≤ MAX_JSON_DEPTH := by
  intro kept
  rcases default with _ | value
  · obtain rfl := Except.ok.inj kept
    exact ⟨rfl, nofun⟩
  · obtain ⟨frozen, kept, same⟩ := Except.bind_eq_ok.mp kept
    obtain ⟨fits, rfl⟩ := freezeJson_eq_ok.mp kept
    obtain rfl := Except.pure_eq_ok.mp same
    exact ⟨rfl, fun other mem => Option.some.inj mem ▸ fits⟩

/-- The compiler makes well-formed bindings. -/
theorem compileBinding_formed {binding : AuthoredBinding} {plan : BindingPlan}
    (compiled : compileBinding binding = .ok plan) : BindingFormed plan := by
  rcases binding with ⟨pointer, default⟩ | ⟨candidates, default⟩ | value
  · obtain ⟨frozen, kept, same⟩ := Except.bind_eq_ok.mp compiled
    obtain rfl := Except.pure_eq_ok.mp same
    exact ⟨pointer.property, (freezeDefault_eq_ok kept).2⟩
  · obtain ⟨frozen, kept, same⟩ := Except.bind_eq_ok.mp compiled
    obtain rfl := Except.pure_eq_ok.mp same
    exact ⟨(candidates_formed candidates).1, (candidates_formed candidates).2,
      (freezeDefault_eq_ok kept).2⟩
  · obtain ⟨frozen, kept, same⟩ := Except.bind_eq_ok.mp compiled
    obtain ⟨fits, rfl⟩ := freezeJson_eq_ok.mp kept
    obtain rfl := Except.pure_eq_ok.mp same
    exact fits

/-- The compiler makes well-formed bindings under the authored names. -/
theorem compileFields_formed {fields : List (String × AuthoredBinding)} {plans : Bindings}
    (compiled : compileFields fields = .ok plans) :
    Dict.keys plans = Dict.keys fields ∧ ∀ entry ∈ plans, BindingFormed entry.2 := by
  induction fields generalizing plans with
  | nil =>
    obtain rfl := Except.ok.inj compiled
    exact ⟨rfl, nofun⟩
  | cons field rest ih =>
    obtain ⟨name, binding⟩ := field
    obtain ⟨plan, one, compiled⟩ := Except.bind_eq_ok.mp compiled
    obtain ⟨others, all, same⟩ := Except.bind_eq_ok.mp compiled
    obtain rfl := Except.pure_eq_ok.mp same
    obtain ⟨names, formed⟩ := ih all
    exact ⟨congrArg (name :: ·) names, List.forall_mem_cons.mpr ⟨compileBinding_formed one, formed⟩⟩

/-- The compiler makes well-formed outputs. -/
theorem compileOutput_formed {output : OutputBinding} {plan : BindingPlan}
    (compiled : compileOutput output = .ok plan) : OutputFormed plan := by
  rcases output with binding | output
  · have formed := compileBinding_formed compiled
    rcases plan with _ | _ | _ | entries
    · exact formed
    · exact formed
    · exact formed
    · exact formed.elim
  · obtain ⟨plans, parts, same⟩ := Except.bind_eq_ok.mp compiled
    obtain rfl := Except.pure_eq_ok.mp same
    obtain ⟨names, formed⟩ := compileFields_formed parts
    refine ⟨fun empty => ?_, names ▸ output.names, formed⟩
    have bounded := output.bounded
    rw [empty] at names
    rw [List.map_eq_nil_iff.mp names.symm] at bounded
    exact absurd bounded.1 (by decide)

/-- Over any context, an accepted condition has a truth value, and an accepted binding a value or nothing,
exactly when every pointer that is read has at most sixty-four parts. -/
theorem evaluation_iff_reads (parse : String → Option Pattern) (tables : CharTables)
    (condition : AuthoredCondition) (admitted : condition.Admitted) (plan : ConditionPlan)
    (compiled : compileCondition parse tables.casefold condition = .ok plan)
    (output : OutputBinding) (binding : BindingPlan) (bound : compileOutput output = .ok binding)
    (context : Json) :
    ((∃ b, evaluateCondition tables context plan = .ok b) ↔ ConditionReads tables context plan) ∧
      (Resolves (resolveBinding context binding) ↔ BindingReads context binding) :=
  ⟨evaluateCondition_succeeds (compileCondition_formed condition admitted plan compiled),
    resolves_iff (compileOutput_formed bound)⟩

/-! A condition and a binding that read the same pointer into the payload. -/

/-- A pointer of one part for the payload and some more. -/
def payloadPointer (parts : ℕ) : String :=
  String.ofList ("/payload".toList ++ (List.replicate parts ['/', 'a']).flatten)

/-- The characters of a pointer into the payload. -/
theorem toList_payloadPointer (parts : ℕ) : (payloadPointer parts).toList =
    "/payload".toList ++ (List.replicate parts ['/', 'a']).flatten := String.toList_ofList

/-- Tables of a text without letters that have cases. -/
def exampleTables : CharTables where
  casefold c := [c]
  lower c := c
  cased _ := false
  extraCases _ := []
  category _ _ := false

/-- A condition on what a pointer finds. -/
def presentAt (pointer : JsonPointer) : AuthoredCondition :=
  .leaf { source := .pointer pointer, operator := .present true }

/-- An output that a pointer finds. -/
def boundTo (pointer : JsonPointer) : OutputBinding := .binding (.pointer pointer (some .null))

/-- A pointer into the payload is a pointer. -/
theorem isJsonPointer_payloadPointer (parts : ℕ) : isJsonPointer (payloadPointer parts) = true := by
  have escapes : escapesValid (List.replicate parts ['/', 'a']).flatten = true := by
    induction parts with
    | zero => rfl
    | succ parts ih => exact ih
  unfold isJsonPointer
  rw [toList_payloadPointer]
  exact escapes

/-- A pointer of sixty-four parts. -/
def deepestPointer : JsonPointer := ⟨payloadPointer 63, isJsonPointer_payloadPointer 63⟩

/-- A pointer of sixty-five parts. -/
def longPointer : JsonPointer := ⟨payloadPointer 64, isJsonPointer_payloadPointer 64⟩

/-- The longest pointer that is read. -/
theorem pointerShort_deepest : PointerShort deepestPointer.val := by
  refine .inr ?_
  unfold pointerParts deepestPointer
  rw [toList_payloadPointer]
  decide +kernel

/-- A pointer that is one part longer. -/
theorem not_pointerShort_long : ¬ PointerShort longPointer.val := by
  unfold PointerShort pointerParts longPointer
  rw [toList_payloadPointer]
  decide +kernel

/-- The longest pointer that is read is decided, and raises nothing. -/
theorem evaluation_iff_reads_deepest :
    (∃ b, evaluateCondition exampleTables (.obj [])
        (.leaf { source := .pointer deepestPointer.val none, operator := .present, operand := .bool true }) =
          .ok b) ∧
      Resolves (resolveBinding (.obj []) (.pointer deepestPointer.val (some .null))) := by
  have both := evaluation_iff_reads (fun _ => none) exampleTables
      (presentAt deepestPointer) trivial _ rfl
    (boundTo deepestPointer) _ rfl (.obj [])
  exact ⟨both.1.mpr pointerShort_deepest, both.2.mpr pointerShort_deepest⟩

/-- Accepted, and refused as a malformed plan when it is evaluated. -/
theorem longPointer_raises :
    (presentAt longPointer).Admitted ∧
      (∃ plan, compileCondition (fun _ => none) exampleTables.casefold (presentAt longPointer) =
        .ok plan ∧
        evaluateCondition exampleTables (.obj []) plan = fail .invalidConfiguration) ∧
      ∃ binding, compileOutput (boundTo longPointer) = .ok binding ∧
        resolveBinding (.obj []) binding = fail .invalidConfiguration := by
  refine ⟨trivial, ⟨_, rfl, ?_⟩, _, rfl, ?_⟩
  · show (lookupPointer longPointer.val (.obj []) >>= _) >>= _ = _
    rw [lookupPointer_long not_pointerShort_long]
    rfl
  · show (lookupPointer longPointer.val (.obj []) >>= _) = _
    rw [lookupPointer_long not_pointerShort_long]
    rfl

end Foliqant.Compiler
