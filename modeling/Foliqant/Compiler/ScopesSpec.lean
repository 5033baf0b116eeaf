import Foliqant.Compiler.BoundarySpec
import Foliqant.Compiler.SchemaNavigation
import Foliqant.Compiler.Scopes

/-!
# Soundness of scopes

A scope is sound in a context when the static value of every pointer admits what the pointer finds there.
Bindings keep the soundness of a scope, so the scope of a flow is sound where its steps have results of
their schemas, and the scope of a workflow where its flows have results of theirs.
-/

namespace Foliqant.Compiler

open Foliqant.Core JsonText

/-! ## Bindings -/

/-- Every index in a pointer has at most 18 digits. -/
def ShortPointer (pointer : String) : Prop := ∀ token ∈ tokens pointer, ShortIndex token

instance (pointer : String) : Decidable (ShortPointer pointer) :=
  inferInstanceAs (Decidable (∀ token ∈ tokens pointer, ShortIndex token))

mutual

/-- A binding with short pointers. -/
def ShortBinding : BindingPlan → Prop
  | .literal _ => True
  | .pointer path _ => ShortPointer path
  | .firstOf members _ => ∀ member ∈ members, ShortPointer member
  | .fields entries => ShortBindings entries

/-- Bindings with short pointers. -/
def ShortBindings : Bindings → Prop
  | [] => True
  | (_, binding) :: rest => ShortBinding binding ∧ ShortBindings rest

end

section Bindings

variable {resources : SchemaResources} (validity : Validity resources)

/-- The static value of every short pointer admits what the pointer finds. -/
def ScopeAdmits (resolve : PointerResolver) (context : Json) : Prop :=
  ∀ pointer static value, ShortPointer pointer → resolve pointer = .ok static →
    lookupPointer pointer context = .ok (some value) → static.Admits validity value

variable {validity}

/-- A default admits more. -/
theorem withDefault_admits {static : Static} {value : Json} (admits : static.Admits validity value)
    (default : Option Json) : (static.withDefault default).Admits validity value := by
  cases default with
  | none => exact admits
  | some other =>
    obtain ⟨a, mem, admits⟩ := static_admits_iff.mp admits
    exact static_admits_iff.mpr ⟨a, List.mem_append_left _ mem, admits⟩

/-- The default itself is admitted. -/
theorem withDefault_admits_self {static : Static} {value : Json} :
    (static.withDefault (some value)).Admits validity value :=
  static_admits_iff.mpr ⟨.const value, List.mem_append_right _ (List.mem_singleton_self _), rfl⟩

/-- What was found is admitted, and so is the default. -/
theorem resolveFound_admits {found default : Option Json} {static : Static}
    (admits : ∀ value, found = some value → static.Admits validity value) {value : Json}
    (resolved : resolveFound found default = .ok value) :
    (static.withDefault default).Admits validity value := by
  cases found with
  | some other =>
    obtain rfl := Except.ok.inj resolved
    exact withDefault_admits (admits _ rfl) default
  | none =>
    cases default with
    | none => cases resolved
    | some default =>
      obtain ⟨-, rfl⟩ := freezeJson_eq_ok.mp resolved
      exact withDefault_admits_self

/-- What candidates found. -/
theorem mem_lookupMembers {context : Json} {members : List String} {found : List (Option Json)}
    (looked : lookupMembers context members = .ok found) {value : Json} (mem : some value ∈ found) :
    ∃ member ∈ members, lookupPointer member context = .ok (some value) := by
  induction members generalizing found with
  | nil =>
    obtain rfl := Except.ok.inj looked
    cases mem
  | cons member rest ih =>
    obtain ⟨first, here, looked⟩ := Except.bind_eq_ok.mp looked
    obtain ⟨others, there, same⟩ := Except.bind_eq_ok.mp looked
    obtain rfl := Except.pure_eq_ok.mp same
    rcases List.mem_cons.mp mem with rfl | mem
    · exact ⟨member, List.mem_cons_self, here⟩
    · obtain ⟨other, among, found⟩ := ih there mem
      exact ⟨other, List.mem_cons_of_mem _ among, found⟩

/-- Members that are found are admitted. -/
theorem fieldsAdmit_of_lookup {fields : List (String × Static)} {members : Object}
    (each : ∀ field ∈ fields, ∃ value, members.lookup field.1 = some value ∧
      field.2.Admits validity value) :
    FieldsAdmit validity fields members := by
  induction fields with
  | nil => trivial
  | cons field rest ih =>
    obtain ⟨first, others⟩ := List.forall_mem_cons.mp each
    obtain ⟨value, found, admits⟩ := first
    refine ⟨?_, ih others⟩
    rw [found]
    exact admits

/-- A static value with the value it admits under its name. -/
def FieldAdmits (validity : Validity resources) (field : String × Static) (member : String × Json) :
    Prop :=
  field.1 = member.1 ∧ field.2.Admits validity member.2

/-- Admitted members stand under the names of their fields. -/
theorem keys_of_fieldAdmits {fields : List (String × Static)} {members : Object}
    (each : List.Forall₂ (FieldAdmits validity) fields members) :
    Dict.keys fields = Dict.keys members := by
  induction each with
  | nil => rfl
  | cons first _ ih => rw [Dict.keys_cons, Dict.keys_cons, first.1, ih]

/-- The object of distinct fields admits the object of their values. -/
theorem obj_admits {fields : List (String × Static)} {members : Object}
    (each : List.Forall₂ (FieldAdmits validity) fields members) (nodup : (Dict.keys members).Nodup) :
    (Static.of [.obj (Dict.ofList fields)]).Admits validity (.obj members) := by
  have keys := keys_of_fieldAdmits each
  rw [Dict.ofList_of_nodup (keys ▸ nodup)]
  refine static_admits_iff.mpr
    ⟨_, List.mem_singleton_self _, members, rfl, ?_, fun key mem => keys ▸ mem⟩
  refine fieldsAdmit_of_lookup fun field mem => ?_
  obtain ⟨⟨name, value⟩, among, same, admits⟩ := List.Forall₂.exists_of_mem_left each mem
  refine ⟨value, ?_, admits⟩
  rw [same]
  exact Dict.lookup_of_mem nodup among

variable {resolve : PointerResolver} {context : Json}

mutual

/-- The static value of a binding admits what the binding resolves to. -/
theorem bindingStatic_admits (sound : ScopeAdmits validity resolve context) :
    (binding : BindingPlan) → ShortBinding binding → {static : Static} →
    bindingStatic resources resolve binding = .ok static → {value : Json} →
    resolveBinding context binding = .ok value → static.Admits validity value
  | .literal constant, _, static, known, value, resolved => by
      obtain rfl := Except.ok.inj known
      unfold resolveBinding at resolved
      obtain ⟨-, rfl⟩ := freezeJson_eq_ok.mp resolved
      exact static_admits_iff.mpr ⟨_, List.mem_singleton_self _, rfl⟩
  | .pointer path default, short, static, known, value, resolved => by
      obtain ⟨base, pointed, same⟩ := Except.bind_eq_ok.mp known
      obtain rfl := Except.pure_eq_ok.mp same
      unfold resolveBinding at resolved
      obtain ⟨found, looked, resolved⟩ := Except.bind_eq_ok.mp resolved
      exact resolveFound_admits (fun value same => sound path base value short pointed
        (same ▸ looked)) resolved
  | .firstOf members default, short, static, known, value, resolved => by
      obtain ⟨statics, each, same⟩ := Except.bind_eq_ok.mp known
      obtain rfl := Except.pure_eq_ok.mp same
      unfold resolveBinding at resolved
      split_ifs at resolved
      · cases resolved
      obtain ⟨found, looked, resolved⟩ := Except.bind_eq_ok.mp resolved
      refine resolveFound_admits (fun value first => ?_) resolved
      obtain ⟨member, mem, here⟩ := mem_lookupMembers looked (firstPresent_spec first)
      obtain ⟨part, among, pointed⟩ := List.Forall₂.exists_of_mem_left (List.mapM_eq_ok.mp each) mem
      exact union_admits among (sound member part value (short member mem) pointed here)
  | .fields [], _, static, known, value, resolved => by
      unfold resolveBinding at resolved
      cases resolved
  | .fields (entry :: entries), short, static, known, value, resolved => by
      obtain ⟨fields, each, same⟩ := Except.bind_eq_ok.mp known
      obtain rfl := Except.pure_eq_ok.mp same
      unfold resolveBinding at resolved
      obtain ⟨members, bound, same⟩ := Except.bind_eq_ok.mp resolved
      obtain rfl := Except.pure_eq_ok.mp same
      obtain ⟨added, rfl, admits, nodup⟩ :=
        bindingStatics_admit sound (entry :: entries) short each bound List.nodup_nil
      exact obj_admits admits nodup

/-- The values of bindings are admitted. -/
theorem bindingStatics_admit (sound : ScopeAdmits validity resolve context) : (bindings : Bindings) →
    ShortBindings bindings → {fields : List (String × Static)} →
    bindingStatics resources resolve bindings = .ok fields → {before members : Object} →
    resolveBindingsFrom context before bindings = .ok members → (Dict.keys before).Nodup →
    ∃ added, members = before ++ added ∧ List.Forall₂ (FieldAdmits validity) fields added ∧
      (Dict.keys members).Nodup
  | [], _, fields, known, before, members, resolved, nodup => by
      obtain rfl := Except.ok.inj known
      unfold resolveBindingsFrom at resolved
      obtain rfl := Except.ok.inj resolved
      exact ⟨[], (List.append_nil _).symm, .nil, nodup⟩
  | (name, binding) :: rest, short, fields, known, before, members, resolved, nodup => by
      obtain ⟨static, first, known⟩ := Except.bind_eq_ok.mp known
      obtain ⟨others, each, same⟩ := Except.bind_eq_ok.mp known
      obtain rfl := Except.pure_eq_ok.mp same
      unfold resolveBindingsFrom at resolved
      split_ifs at resolved with fresh
      · cases resolved
      obtain ⟨value, here, resolved⟩ := Except.bind_eq_ok.mp resolved
      have nodup' : (Dict.keys (before ++ [(name, value)])).Nodup := by
        rw [Dict.keys, List.map_append]
        exact List.Nodup.append nodup (List.nodup_singleton _) (List.disjoint_singleton.mpr fresh)
      obtain ⟨added, rfl, admits, distinct⟩ :=
        bindingStatics_admit sound rest short.2 each resolved nodup'
      refine ⟨(name, value) :: added, by rw [List.append_assoc]; rfl, .cons
        ⟨rfl, ?_⟩ admits, distinct⟩
      exact bindingStatic_admits sound binding short.1 first here

end

end Bindings

/-! ## Known schemas -/

section Known

variable {resources : SchemaResources} {validity : Validity resources} (laws : Keywords validity)
  {root : Object} {path : String}

/-- Every value is valid where nothing is known. -/
theorem valid_anything (value : Json) : validity.Valid ⟨.obj [], root, path⟩ value :=
  validity.empty ⟨.obj [], root, path⟩ value

/-- Every value is admitted where nothing is known. -/
theorem anything_admits (value : Json) : anything.Admits validity value :=
  static_admits_iff.mpr ⟨_, List.mem_singleton_self _, valid_anything value⟩

include laws

/-- A value of the type is valid. -/
theorem valid_ofType {kind : String} {value : Json} (has : HasType kind value) :
    validity.Valid ⟨ofType kind, root, path⟩ value :=
  laws.accepts _ value _ rfl (List.forall_mem_singleton.mpr ⟨kind, rfl, has⟩)

/-- One of the words is valid. -/
theorem valid_oneOf {values : List String} {text : String} (mem : text ∈ values) :
    validity.Valid ⟨oneOf values, root, path⟩ (.str text) := by
  refine laws.accepts _ _ _ rfl (List.forall_mem_cons.mpr ⟨⟨"string", rfl, .string text⟩, ?_⟩)
  refine List.forall_mem_singleton.mpr ⟨_, rfl, .str text, List.mem_map_of_mem mem, ?_⟩
  exact decide_eq_true rfl

/-- The declared members of an object that may have others. -/
theorem valid_open {properties members : Object}
    (each : ∀ name node next, properties.lookup name = some node →
    members.lookup name = some next → validity.Valid ⟨node, root, path⟩ next) :
    validity.Valid ⟨.obj [("type", .str "object"), ("properties", .obj properties)], root, path⟩
      (.obj members) := by
  refine laws.accepts _ _ _ rfl (List.forall_mem_cons.mpr ⟨⟨"object", rfl, .object members⟩, ?_⟩)
  refine List.forall_mem_singleton.mpr ⟨properties, rfl, ?_⟩
  rintro _ name node next ⟨⟩ known found
  exact each name node next known found

/-- Every member of an object is declared. -/
theorem valid_closed {properties members : Object}
    (each : ∀ name next, members.lookup name = some next →
    ∃ node, properties.lookup name = some node ∧ validity.Valid ⟨node, root, path⟩ next) :
    validity.Valid ⟨.obj [("type", .str "object"), ("properties", .obj properties),
      ("additionalProperties", .bool false)], root, path⟩ (.obj members) := by
  refine laws.accepts _ _ _ rfl (List.forall_mem_cons.mpr ⟨⟨"object", rfl, .object members⟩,
    List.forall_mem_cons.mpr ⟨⟨properties, rfl, ?_⟩, List.forall_mem_singleton.mpr ?_⟩⟩)
  · rintro _ name node next ⟨⟩ known found
    obtain ⟨node', known', valid⟩ := each name next found
    obtain rfl := Option.some.inj (known'.symm.trans known)
    exact valid
  · rintro _ name next ⟨⟩ found undeclared
    obtain ⟨node, known, -⟩ := each name next found
    exact absurd ⟨properties, rfl, by rw [known]; rfl⟩ undeclared

/-- The present members of an object are declared. -/
theorem valid_present {properties : Object} {members : List (String × Option Json)}
    (each : ∀ member ∈ members, ∀ next, member.2 = some next →
      ∃ node, properties.lookup member.1 = some node ∧ validity.Valid ⟨node, root, path⟩ next) :
    validity.Valid ⟨.obj [("type", .str "object"), ("properties", .obj properties),
      ("additionalProperties", .bool false)], root, path⟩ (.obj (presentMembers members)) := by
  refine valid_closed laws fun name next found => ?_
  obtain ⟨⟨key, value⟩, mem, present⟩ := List.mem_filterMap.mp (Dict.mem_of_lookup found)
  obtain ⟨next', rfl, same⟩ := Option.map_eq_some_iff.mp present
  obtain ⟨rfl, rfl⟩ := Prod.mk.inj same
  exact each _ mem _ rfl

/-- Every object is admitted. -/
theorem anyObject_admits (members : Object) : anyObject.Admits validity (.obj members) :=
  static_admits_iff.mpr ⟨_, List.mem_singleton_self _, valid_ofType laws (.object members)⟩

end Known

/-! ## Flows -/

section Flow

variable {resources : SchemaResources} (validity : Validity resources) (scope : FlowScope)

/-- A selected category is one that the step can select. -/
def CategoryFits (step : CompiledStep) (id : String) : Prop :=
  match step with
  | .decision step => step.singleChoice = true →
      id ∈ ((step.questions.head?.map fun question => question.options.map (·.id)).getD []) ++
        (step.fallback.map fun fallback => fallback.category.id).toList
  | _ => True

/-- A record of a step that did not fail, with a result of its schema. -/
structure StepFits (step : CompiledStep) (record : StepRecord) : Prop where
  result : ∀ value, record.result = some value → (scope.stepResult step).Admits validity value
  collection : record.collection = true → step.isCollection = true
  selection : ∀ selection, record.selection = some selection →
    step.selects = true ∧ CategoryFits step selection.category.id
  settled : record.error = none ∧ record.partialResult = none

/-- Every record is one of a step of the scope. -/
def StepsFit (records : List (String × StepRecord)) : Prop :=
  ∀ name record, records.lookup name = some record →
    ∃ step, scope.steps.lookup name = some step ∧ StepFits validity scope step record

variable {validity scope} (laws : Keywords validity)

include laws

/-- A category of the step is valid. -/
theorem valid_category {step : CompiledStep} {category : CategoryPlan}
    (fits : CategoryFits step category.id)
    {root : Object} {path : String} : validity.Valid ⟨.obj [("type", .str "object"),
      ("properties", .obj [("id", categorySchema step), ("description", ofType "string")]),
      ("additionalProperties", .bool false)], root, path⟩ category.asJson := by
  refine valid_present laws (List.forall_mem_cons.mpr ⟨?_, List.forall_mem_singleton.mpr ?_⟩)
  · rintro _ ⟨⟩
    refine ⟨categorySchema step, rfl, ?_⟩
    unfold categorySchema
    split
    case h_1 step =>
      split_ifs with single
      · exact valid_oneOf laws (fits single)
      · exact valid_ofType laws (.string _)
    case h_2 => exact valid_ofType laws (.string _)
  · intro next present
    obtain ⟨text, -, rfl⟩ := Option.map_eq_some_iff.mp present
    exact ⟨_, rfl, valid_ofType laws (.string text)⟩

/-- A selection of the step is valid. -/
theorem valid_selection {step : CompiledStep} {selection : Selection}
    (fits : CategoryFits step selection.category.id) {root : Object} {path : String} :
    validity.Valid ⟨.obj (selectionSchema step), root, path⟩ selection.asJson := by
  have origin : selection.origin.value ∈ ["model", "fallback"] := by
    cases selection.origin <;> decide
  refine valid_closed laws fun name next found => ?_
  rcases List.mem_cons.mp (Dict.mem_of_lookup found) with same | mem
  · obtain ⟨rfl, rfl⟩ := Prod.mk.inj same
    exact ⟨_, rfl, valid_category laws fits⟩
  · obtain ⟨rfl, rfl⟩ := Prod.mk.inj (List.mem_singleton.mp mem)
    exact ⟨_, rfl, valid_oneOf laws origin⟩

omit laws in
/-- Every status has its word. -/
theorem status_known (status : Status) : status.value ∈ STATUSES := by
  cases status <;> decide

/-- The record of a step that fits is one of its record schema. -/
theorem valid_record {step : CompiledStep} {record : StepRecord}
    (fits : StepFits validity scope step record)
    {root : Object} {path : String} :
    validity.Valid ⟨.obj (recordSchema step), root, path⟩ record.data := by
  refine valid_present laws ?_
  refine List.forall_mem_cons.mpr ⟨?_, List.forall_mem_cons.mpr ⟨?_, List.forall_mem_cons.mpr ⟨?_,
    List.forall_mem_cons.mpr ⟨?_, List.forall_mem_cons.mpr ⟨?_, List.forall_mem_singleton.mpr ?_⟩⟩⟩⟩⟩
  · rintro _ ⟨⟩
    exact ⟨_, rfl, valid_oneOf laws (status_known record.status)⟩
  · intro next _
    exact ⟨_, rfl, valid_anything next⟩
  · intro next present
    split_ifs at present with collection
    obtain rfl := Option.some.inj present
    refine ⟨.obj [("const", .str "flow_collection")], ?_, ?_⟩
    · rw [if_pos (fits.collection collection)]
      rfl
    · have equal : jsonEqual (.str "flow_collection") (.str "flow_collection") = true := by decide
      exact laws.accepts _ _ _ rfl (List.forall_mem_singleton.mpr equal)
  · intro next present
    obtain ⟨selection, selected, rfl⟩ := Option.map_eq_some_iff.mp present
    obtain ⟨selects, category⟩ := fits.selection selection selected
    refine ⟨.obj (selectionSchema step), ?_, valid_selection laws category⟩
    rw [if_pos selects]
    cases step.isCollection <;> rfl
  · intro next present
    rw [fits.settled.2] at present
    cases present
  · intro next present
    rw [fits.settled.1] at present
    cases present

/-- The data of a flow: an input of its schema, and records of its steps. -/
structure FlowData (validity : Validity resources) (scope : FlowScope) (envelope : AcceptedEnvelope)
    (records : List (String × StepRecord)) : Prop where
  payload : scope.payload.Admits validity envelope.payload
  steps : StepsFit validity scope records

omit laws in
/-- What a pointer reads below the steps, of the step if it has a record. -/
theorem lookupTokens_steps (envelope : AcceptedEnvelope) (records : List (String × StepRecord))
    (name : String) (below : List String) :
    lookupTokens (bindingContext envelope records) ("steps" :: name :: below) =
      (records.lookup name).bind fun record => lookupTokens record.data below := by
  have found := congrArg (Option.bind · (lookupTokens · below)) (lookup_records records name)
  refine Eq.trans found ?_
  cases records.lookup name <;> rfl

/-- The scope of a flow is sound in its data. -/
theorem FlowData.admits {envelope : AcceptedEnvelope} {records : List (String × StepRecord)}
    (data : FlowData validity scope envelope records) :
    ScopeAdmits validity (scope.resolve resources) (bindingContext envelope records) := by
  intro pointer static value short known looked
  have found := lookupPointer_tokens looked
  unfold ShortPointer at short
  unfold FlowScope.resolve at known
  -- One case for each form of a pointer into the data of a flow.
  generalize tokens pointer = path at short known found
  split at known
  case h_1 =>
    obtain rfl := Except.ok.inj known
    obtain rfl := Option.some.inj found
    exact anyObject_admits laws _
  case h_2 below =>
    exact Static.pointer_sound laws data.payload (List.forall_mem_cons.mp short).2 found.symm known
  case h_3 below =>
    exact Static.pointer_sound laws (anyObject_admits laws envelope.metadata)
      (List.forall_mem_cons.mp short).2 found.symm known
  case h_4 =>
    obtain rfl := Except.ok.inj known
    obtain rfl := Option.some.inj found
    exact anyObject_admits laws _
  case h_5 name below =>
    have below_short := (List.forall_mem_cons.mp (List.forall_mem_cons.mp short).2).2
    cases recorded : records.lookup name with
    | none =>
      rw [lookupTokens_steps, recorded] at found
      cases found
    | some record =>
      obtain ⟨step, listed, fits⟩ := data.steps name record recorded
      have reads : some value = lookupTokens record.data below := by
        rw [found, lookupTokens_steps, recorded]
        rfl
      rw [listed] at known
      split at known
      case h_1 none_ => cases none_
      case h_2 step' below' same =>
        obtain rfl := Option.some.inj same
        have inner : some value = record.result.bind (lookupTokens · below') := by
          rw [reads, lookupTokens, childToken_data]
          rfl
        obtain ⟨result, has, rest⟩ := Option.bind_eq_some_iff.mp inner.symm
        exact Static.pointer_sound laws (fits.result result has)
          (List.forall_mem_cons.mp below_short).2 rest known
      case h_3 same _ =>
        obtain rfl := Option.some.inj same
        have valid : (Static.of [.view (rootView (recordSchema step) "")]).Admits
            validity record.data :=
          static_admits_iff.mpr ⟨_, List.mem_singleton_self _, valid_record laws fits⟩
        exact Static.pointer_sound laws valid below_short reads.symm known
  case h_6 =>
    obtain rfl := Except.ok.inj known
    exact anything_admits value

end Flow

/-! ## Workflows -/

section Workflow

variable {resources : SchemaResources} (validity : Validity resources) (scope : WorkflowScope)

/-- What a run of a flow returned is a result of the flow. -/
def RunFits (flow : FlowPlan) (local_ : FlowScope) (run : FlowRun) : Prop :=
  ∀ static, scope.flowResult resources flow local_ = .ok static →
    ∀ value, run.result = some value → static.Admits validity value

/-- The record of a flow with results of the flow, and attempts without an error. -/
structure RecordFits (flow : FlowPlan) (local_ : FlowScope) (record : FlowRecord) : Prop where
  run : RunFits validity scope flow local_ record.toFlowRun
  attempts : ∀ attempt ∈ record.attempts, RunFits validity scope flow local_ attempt ∧
    attempt.error = none

/-- Every record is one of its flow. -/
def RecordsFit (records : Records) : Prop :=
  ∀ name record, records.lookup name = some record → ∀ flow local_,
      scope.flow? name = some (flow, local_) →
    RecordFits validity scope flow local_ record

/-- The data of a boundary: an input of its schema, and records of the flows. -/
structure BoundaryData (envelope : AcceptedEnvelope) (records : Records) : Prop where
  payload : (inputStatic scope.schemas [] scope.inputPath).Admits validity envelope.payload
  records : RecordsFit validity scope records

variable {validity scope} (laws : Keywords validity)
include laws

/-- A number from one on is valid. -/
theorem valid_counter {index : ℕ} (positive : 1 ≤ index) {root : Object} {path : String} :
    validity.Valid ⟨.obj [("type", .str "integer"), ("minimum", .int 1)], root, path⟩
    (.int index) := by
  refine laws.accepts _ _ _ rfl (List.forall_mem_cons.mpr ⟨⟨"integer", rfl, .integer _⟩, ?_⟩)
  refine List.forall_mem_singleton.mpr ⟨1, rfl, ?_, ?_⟩
  · rintro n ⟨⟩
    exact_mod_cast positive
  · rintro x ⟨⟩

/-- The entry of an attempt without an error. -/
theorem attempt_admits {result : Static} {index : ℕ} (positive : 1 ≤ index) {attempt : FlowRun}
    (fits : ∀ value, attempt.result = some value → result.Admits validity value)
    (settled : attempt.error = none) :
    (Static.of [.obj (WorkflowScope.attemptFields result)]).Admits validity
      (.obj (presentMembers [("attempt", some (.int index)),
        ("status", some (.str attempt.status.value)),
        ("result", attempt.result), ("error", attempt.error.map ServiceError.asJson)])) := by
  have view {view : SchemaView} {value : Json} (valid : validity.Valid view value) :
      (Static.of [.view view]).Admits validity value :=
    static_admits_iff.mpr ⟨_, List.mem_singleton_self _, valid⟩
  have counter : (Static.of [.view
      (rootView [("type", .str "integer"), ("minimum", .int 1)] "")]).Admits
      validity (.int index) := view (valid_counter laws positive)
  have status : (Static.of [.view
      (rootView [("type", .str "string"), ("enum", strings STATUSES)] "")]).Admits
      validity (.str attempt.status.value) := view (valid_oneOf laws (status_known attempt.status))
  refine static_admits_iff.mpr ⟨_, List.mem_singleton_self _, _, rfl, ?_, ?_⟩
  · rw [settled]
    cases returned : attempt.result with
    | none => exact ⟨counter, status, rfl, rfl, trivial⟩
    | some value =>
      obtain ⟨leaf, mem, admits⟩ := static_admits_iff.mp (fits value returned)
      have kept : Static.Admits validity
          { alternatives := result.alternatives, absent := true } value :=
        static_admits_iff.mpr ⟨leaf, mem, admits⟩
      exact ⟨counter, status, kept, rfl, trivial⟩
  · intro key mem
    obtain ⟨⟨name, value⟩, among, rfl⟩ := List.mem_map.mp mem
    obtain ⟨⟨own, found⟩, listed, present⟩ := List.mem_filterMap.mp among
    obtain ⟨_, -, same⟩ := Option.map_eq_some_iff.mp present
    obtain ⟨rfl, -⟩ := Prod.mk.inj same
    exact List.mem_map_of_mem (f := Prod.fst) listed

/-- The attempts of a flow are admitted. -/
theorem attempts_admit {result : Static} {attempts : List FlowRun}
    (fits : ∀ attempt ∈ attempts,
      (∀ value, attempt.result = some value → result.Admits validity value) ∧
      attempt.error = none) :
    (WorkflowScope.attempts result).Admits validity (.arr (attemptData 1 attempts)) := by
  have each (index : ℕ) (positive : 1 ≤ index) : ∀ item ∈ attemptData index attempts,
      (Static.of [.obj (WorkflowScope.attemptFields result)]).Admits validity item := by
    induction attempts generalizing index with
    | nil => exact List.forall_mem_nil _
    | cons attempt rest ih =>
      obtain ⟨first, others⟩ := List.forall_mem_cons.mp fits
      exact List.forall_mem_cons.mpr ⟨attempt_admits laws positive first.1 first.2,
        ih others (index + 1) (Nat.le_add_left 1 index)⟩
  exact static_admits_iff.mpr ⟨_, List.mem_singleton_self _, _, rfl, each 1 le_rfl⟩

omit laws in
/-- What a pointer reads below the flows, of the flow if it has a record. -/
theorem lookupTokens_flows (envelope : AcceptedEnvelope) (records : Records) (name : String)
    (below : List String) :
    lookupTokens (workflowContext envelope records) ("flows" :: name :: below) =
      (records.lookup name).bind fun record => lookupTokens record.data below := by
  have found := congrArg (Option.bind · (lookupTokens · below)) (lookup_data records name)
  refine Eq.trans found ?_
  cases records.lookup name <;> rfl

omit laws in
/-- What a pointer reads below a flow. -/
theorem lookupTokens_record {envelope : AcceptedEnvelope} {records : Records} {name field : String}
    {below : List String} {value : Json}
    (found : lookupTokens (workflowContext envelope records) ("flows" :: name :: field :: below) =
      some value) :
    ∃ record, records.lookup name = some record ∧
      (((flowMembers record).lookup field).join.bind (lookupTokens · below)) = some value := by
  cases recorded : records.lookup name with
  | none =>
    rw [lookupTokens_flows, recorded] at found
    cases found
  | some record =>
    rw [lookupTokens_flow envelope recorded, lookupTokens] at found
    have nodup : ((flowMembers record).map Prod.fst).Nodup := by
      show ["status", "result", "error", "attempts"].Nodup
      decide
    have same : childToken record.data field = ((flowMembers record).lookup field).join :=
      lookup_presentMembers nodup field
    rw [same] at found
    exact ⟨record, rfl, found⟩

/-- The scope of a workflow is sound in the data of a boundary. -/
theorem BoundaryData.admits {envelope : AcceptedEnvelope} {records : Records}
    (data : BoundaryData validity scope envelope records) :
    ScopeAdmits validity (scope.resolve resources) (workflowContext envelope records) := by
  intro pointer static value short known looked
  have found := lookupPointer_tokens looked
  unfold ShortPointer at short
  unfold WorkflowScope.resolve at known
  -- One case for each form of a pointer into the data of a boundary.
  generalize tokens pointer = path at short known found
  split at known
  case h_1 =>
    obtain rfl := Except.ok.inj known
    obtain rfl := Option.some.inj found
    exact anyObject_admits laws _
  case h_2 below =>
    exact Static.pointer_sound laws data.payload (List.forall_mem_cons.mp short).2 found.symm known
  case h_3 below =>
    exact Static.pointer_sound laws (anyObject_admits laws envelope.metadata)
      (List.forall_mem_cons.mp short).2 found.symm known
  case h_4 name field below =>
    obtain ⟨-, -, -, below_short⟩ : _ ∧ _ ∧ _ ∧ ∀ token ∈ below, ShortIndex token := by
      simpa only [List.forall_mem_cons] using short
    obtain ⟨record, recorded, reads⟩ := lookupTokens_record found.symm
    obtain ⟨whole, has, rest⟩ := Option.bind_eq_some_iff.mp reads
    split at known
    case h_1 flow local_ here =>
      obtain ⟨result, returned, known⟩ := Except.bind_eq_ok.mp known
      have fits := data.records name record recorded flow local_ here
      have own : record.result = some whole := has
      exact Static.pointer_sound laws (fits.run result returned whole own) below_short rest known
    case h_2 flow local_ here =>
      obtain ⟨result, returned, known⟩ := Except.bind_eq_ok.mp known
      have fits := data.records name record recorded flow local_ here
      have own : (if record.attempts = [] then none else some
          (.arr (attemptData 1 record.attempts))) =
          some whole := has
      split_ifs at own with empty
      obtain rfl := Option.some.inj own
      have admits : (WorkflowScope.attempts result).Admits validity
          (.arr (attemptData 1 record.attempts)) :=
        attempts_admit laws fun attempt mem => ⟨(fits.attempts attempt mem).1 result returned,
          (fits.attempts attempt mem).2⟩
      exact Static.pointer_sound laws admits below_short rest known
    case h_3 =>
      obtain rfl := Except.ok.inj known
      exact anything_admits value
  case h_5 =>
    obtain rfl := Except.ok.inj known
    exact anything_admits value

end Workflow

end Foliqant.Compiler
