import Foliqant.Compiler.BoundaryRuns
import Foliqant.Compiler.PlainSchemas
import Foliqant.Compiler.ScopesSpec
import Foliqant.Core.CollectionLedger

/-!
# Typed runs

The schemas that the compiler derives describe what runs record. The ledger of every collection is one of the
collection schema, so a flow whose operations return results of their schemas returns a result of its own,
and at every boundary of a run the records are those the scope of the workflow describes.
-/

namespace Foliqant.Compiler

open Foliqant.Core JsonText

/-! ## Ledgers -/

section Ledgers

variable {resources : SchemaResources} {validity : Validity resources} {root : Object} {path : String}

variable (validity root path) in
/-- Members that an entry of a ledger may have. -/
def EntryMembers (members : Object) : Prop :=
  ∀ member ∈ members, ∃ node, entryProperties.lookup member.1 = some node ∧
    validity.Valid ⟨node, root, path⟩ member.2

/-- Members of two parts. -/
theorem EntryMembers.append {members others : Object}
    (first : EntryMembers validity root path members)
    (second : EntryMembers validity root path others) :
    EntryMembers validity root path (members ++ others) :=
  List.forall_mem_append.mpr ⟨first, second⟩

/-- Members that are present are valid. -/
theorem entryMembers_present {members : List (String × Option Json)}
    (each : ∀ member ∈ members, ∀ value, member.2 = some value →
      ∃ node, entryProperties.lookup member.1 = some node ∧ validity.Valid ⟨node, root, path⟩ value) :
    EntryMembers validity root path (presentMembers members) := by
  intro member mem
  obtain ⟨⟨name, value⟩, among, present⟩ := List.mem_filterMap.mp mem
  obtain ⟨value', rfl, rfl⟩ := Option.map_eq_some_iff.mp present
  exact each _ among value' rfl

/-- A usage is written as an object. -/
theorem optionalUsage_object {usage : Option Usage} {value : Json}
    (written : optionalUsage usage = .ok (some value)) : ∃ members, value = .obj members := by
  cases usage with
  | none => cases written
  | some usage =>
    unfold optionalUsage at written
    obtain ⟨own, counted, same⟩ := Except.bind_eq_ok.mp written
    obtain rfl := Option.some.inj (Except.pure_eq_ok.mp same)
    unfold usageValue at counted
    obtain ⟨cost, -, counted⟩ := Except.bind_eq_ok.mp counted
    obtain ⟨byModel, -, same⟩ := Except.bind_eq_ok.mp counted
    exact ⟨_, (Except.pure_eq_ok.mp same).symm⟩

variable (laws : Keywords validity)
include laws

/-- The members of a record are valid. -/
theorem recordValue_members {status : Status} {result : Option Json} {usage : Option Usage}
    {elapsedSeconds : Option ℚ} {error : Option Failure} {members : Object}
    (written : recordValue status result usage elapsedSeconds error = .ok members) :
    EntryMembers validity root path members := by
  obtain ⟨counted, used, same⟩ := Except.bind_eq_ok.mp written
  obtain rfl := Except.pure_eq_ok.mp same
  refine entryMembers_present (List.forall_mem_cons.mpr ⟨?_, List.forall_mem_cons.mpr ⟨?_,
    List.forall_mem_cons.mpr ⟨?_, List.forall_mem_cons.mpr ⟨?_, List.forall_mem_singleton.mpr ?_⟩⟩⟩⟩)
  · rintro _ ⟨⟩
    exact ⟨_, rfl, valid_ofType laws (.string _)⟩
  · intro value _
    exact ⟨_, rfl, valid_anything value⟩
  · intro value present
    obtain rfl : counted = some value := present
    obtain ⟨members, rfl⟩ := optionalUsage_object used
    exact ⟨_, rfl, valid_ofType laws (.object members)⟩
  · intro value present
    obtain ⟨seconds, -, rfl⟩ := Option.map_eq_some_iff.mp present
    exact ⟨_, rfl, valid_ofType laws (.float seconds)⟩
  · intro value present
    obtain ⟨failure, -, rfl⟩ := Option.map_eq_some_iff.mp present
    exact ⟨_, rfl, valid_ofType laws (.object _)⟩

/-- The members of a flow's run are valid. -/
theorem flowValue_members {run : FlowRun} {members : Object} (written : flowValue run = .ok members) :
    EntryMembers validity root path members := by
  obtain ⟨own, recorded, written⟩ := Except.bind_eq_ok.mp written
  obtain ⟨steps, -, same⟩ := Except.bind_eq_ok.mp written
  obtain rfl := Except.pure_eq_ok.mp same
  exact (recordValue_members laws recorded).append
    (List.forall_mem_singleton.mpr ⟨_, rfl, valid_ofType laws (.object steps)⟩)

/-- The end of a repeat is valid. -/
theorem stop_known (stop : RepeatStop) : validity.Valid ⟨.obj [("type", .str "object"),
    ("properties", .obj [("stopped_by",
      oneOf ["until", "exhausted", "continue_when", "review", "failure"])])],
    root, path⟩ (.obj [("stopped_by", .str stop.value)]) := by
  refine valid_open laws fun name node next known found => ?_
  obtain ⟨rfl, rfl⟩ := Prod.mk.inj (List.mem_singleton.mp (Dict.mem_of_lookup found))
  obtain rfl := Option.some.inj known
  exact valid_oneOf laws (by cases stop <;> decide)

/-- The members of a flow's record are valid. -/
theorem flowRecordValue_members {record : FlowRecord} {members : Object}
    (written : flowRecordValue record = .ok members) : EntryMembers validity root path members := by
  obtain ⟨own, recorded, written⟩ := Except.bind_eq_ok.mp written
  obtain ⟨attempts, -, written⟩ := Except.bind_eq_ok.mp written
  obtain ⟨total, counted, same⟩ := Except.bind_eq_ok.mp written
  obtain rfl := Except.pure_eq_ok.mp same
  refine (((flowValue_members laws recorded).append ?_).append ?_).append ?_
  · exact List.forall_mem_singleton.mpr ⟨_, rfl, valid_ofType laws (.integer _)⟩
  · split
    · exact List.forall_mem_nil _
    refine entryMembers_present (List.forall_mem_cons.mpr ⟨?_, List.forall_mem_cons.mpr ⟨?_,
      List.forall_mem_singleton.mpr ?_⟩⟩)
    · rintro _ ⟨⟩
      exact ⟨_, rfl, valid_ofType laws (.array attempts)⟩
    · intro value present
      obtain rfl : total = some value := present
      obtain ⟨members, rfl⟩ := optionalUsage_object counted
      exact ⟨_, rfl, valid_ofType laws (.object members)⟩
    · intro value present
      obtain ⟨seconds, -, rfl⟩ := Option.map_eq_some_iff.mp present
      exact ⟨_, rfl, valid_ofType laws (.float seconds)⟩
  · refine entryMembers_present (List.forall_mem_singleton.mpr fun value present => ?_)
    obtain ⟨stop, -, rfl⟩ := Option.map_eq_some_iff.mp present
    exact ⟨_, rfl, stop_known laws stop⟩

/-- An item's entry is valid. -/
theorem valid_entry {item : Item} {ran : ItemRun} {entry : Json}
    (written : ledgerEntry item ran = .ok entry) :
    validity.Valid ⟨.obj entrySchema, root, path⟩ entry := by
  obtain ⟨fields, retry, recorded, retried, once, rfl⟩ := (ledgerEntry_spec written).written
  have own : EntryMembers validity root path [("id", .str item.id), ("flow", .str item.flow.name)] :=
    List.forall_mem_cons.mpr ⟨⟨_, rfl, valid_ofType laws (.string _)⟩,
      List.forall_mem_singleton.mpr ⟨_, rfl, valid_ofType laws (.string _)⟩⟩
  have again : EntryMembers validity root path retry := by
    cases listed : ran.retry with
    | none =>
      rw [once listed]
      exact List.forall_mem_nil _
    | some record =>
      obtain ⟨members, -, rfl⟩ := retried record listed
      exact List.forall_mem_singleton.mpr ⟨_, rfl, valid_ofType laws (.object members)⟩
  have each := (own.append (flowRecordValue_members laws recorded)).append again
  exact valid_closed laws fun name next found => each _ (Dict.mem_of_lookup found)

/-- The entries of items are valid. -/
theorem valid_entries {items : List Item} {runs : List ItemRun} {entries : List Json}
    (written : ledgerEntries items runs = .ok entries) :
    ∀ entry ∈ entries, validity.Valid ⟨.obj entrySchema, root, path⟩ entry := by
  induction items generalizing runs entries with
  | nil =>
    obtain rfl := Except.ok.inj written
    exact List.forall_mem_nil _
  | cons item items ih =>
    cases runs with
    | nil =>
      obtain rfl := Except.ok.inj written
      exact List.forall_mem_nil _
    | cons ran runs =>
      obtain ⟨entry, first, written⟩ := Except.bind_eq_ok.mp written
      obtain ⟨others, rest, same⟩ := Except.bind_eq_ok.mp written
      obtain rfl := Except.pure_eq_ok.mp same
      exact List.forall_mem_cons.mpr ⟨valid_entry laws first, ih rest⟩

/-- A ledger is valid. -/
theorem valid_ledger {items : List Item} {runs : List ItemRun} {entries : List Json}
    (written : ledgerEntries items runs = .ok entries) :
    validity.Valid ⟨.obj collectionResultSchema, root, path⟩ (.obj [("items", .arr entries)]) := by
  have array : validity.Valid ⟨.obj [("type", .str "array"), ("items", .obj entrySchema)], root, path⟩
      (.arr entries) := by
    refine laws.accepts _ _ _ rfl (List.forall_mem_cons.mpr ⟨⟨"array", rfl, .array entries⟩, ?_⟩)
    refine List.forall_mem_singleton.mpr ?_
    rintro _ ⟨⟩
    exact valid_entries laws written
  refine laws.accepts _ _ _ rfl (List.forall_mem_cons.mpr ⟨⟨"object", rfl, .object _⟩,
    List.forall_mem_cons.mpr ⟨⟨_, rfl, ?_⟩, List.forall_mem_cons.mpr ⟨?_,
      List.forall_mem_singleton.mpr ⟨_, rfl, ?_⟩⟩⟩⟩)
  · rintro _ name ⟨⟩ required
    obtain rfl := Value.str.inj (List.mem_singleton.mp required)
    rfl
  · rintro _ name next ⟨⟩ found undeclared
    obtain ⟨rfl, rfl⟩ := Prod.mk.inj (List.mem_singleton.mp (Dict.mem_of_lookup found))
    exact absurd ⟨_, rfl, rfl⟩ undeclared
  · rintro _ name node next ⟨⟩ known found
    obtain ⟨rfl, rfl⟩ := Prod.mk.inj (List.mem_singleton.mp (Dict.mem_of_lookup found))
    obtain rfl := Option.some.inj known
    exact array

end Ledgers

/-! ## Steps -/

section Steps

variable {resources : SchemaResources} (validity : Validity resources)

/-- What an operation returned is a result of its step, and it selected what the step can select. -/
structure OutcomeFits (scope : FlowScope) (step : CompiledStep) (outcome : StepOutcome) : Prop where
  result : ∀ value, outcome.result = some value → (scope.stepResult step).Admits validity value
  selection : ∀ selection, outcome.selection = some selection →
    step.selects = true ∧ CategoryFits step selection.category.id

/-- A step of a flow as the scope of the flow knows it. -/
structure StepTyped (r : WorkflowRunner) (flow : String) (scope : FlowScope) (step : StepPlan)
    (compiled : CompiledStep) : Prop where
  listed : scope.steps.lookup step.name = some compiled
  collection : compiled.isCollection = step.kind.isCollection
  outcomes : step.kind.isCollection = false → ∀ n inputs context outcome, context.flowId = flow →
    (r.services.execute n step inputs context).1 = .returned outcome →
    OutcomeFits validity scope compiled outcome

variable {validity} {scope : FlowScope} {compiled : CompiledStep}

/-- An accepted result is the outcome's. -/
theorem acceptOutcome_result {executed : Executed} {kind : StepKind}
    {outcome : StepOutcome} {value : Json}
    (h : acceptOutcome executed kind = .ok (outcome, value)) : outcome.result = some value := by
  obtain rfl := acceptOutcome_returned h
  unfold acceptOutcome at h
  dsimp only at h
  split_ifs at h
  · cases h
  · cases result : outcome.result with
    | none =>
      rw [result] at h
      cases h
    | some found =>
      rw [result] at h
      dsimp only at h
      split_ifs at h
      · obtain ⟨-, rfl⟩ := Prod.mk.inj (Except.ok.inj h)
        rfl
      · cases h

/-- A step that was not begun has no result. -/
theorem skippedStep_fits {step : StepPlan}
    (collection : compiled.isCollection = step.kind.isCollection) :
    StepFits validity scope compiled (skippedStep step) where
  result _ none_ := by cases none_
  collection own := collection.trans own
  selection _ none_ := by cases none_
  settled := ⟨rfl, rfl⟩

/-- The ledger of a collection that did not fail is one of the collection schema. -/
theorem collection_fits (laws : Keywords validity) {r : WorkflowRunner}
    {run : FlowCall → World → (FlowRun × List DecisionIssue) × World}
    {batch : CollectionCall} {w w' : World}
    {record : StepRecord} (ran : CollectionRan r run batch w (.ok record ((), w')))
    (consistent : record.Consistent) (unfailed : record.status ≠ .failed) :
    StepFits validity scope .flowCollection record := by
  have settled : record.error = none :=
    Option.not_isSome_iff_eq_none.mp fun some_ => unfailed (consistent.mpr some_)
  cases ran with
  | @recorded _ _ ran _ _ entries elapsed _ _ _ _ _ _ ledger =>
    refine ⟨fun value has => ?_, fun _ => rfl, fun _ none_ => (by cases none_),
      ⟨settled, if_neg unfailed⟩⟩
    obtain rfl := Option.some.inj
      ((if_neg unfailed : (ran.record _ elapsed).result = _).symm.trans has)
    exact static_admits_iff.mpr ⟨_, List.mem_singleton_self _, valid_ledger laws ledger⟩

variable {r : WorkflowRunner} {collection : CollectionCall → Exec Unit StepRecord} {call : FlowCall}
  {step : StepPlan} {l l₁ : FlowLocals} {w w₁ : World} {control : Control} {record : StepRecord}

/-- The collections of a flow record ledgers. -/
def CollectionsFit (validity : Validity resources) (scope : FlowScope)
    (collection : CollectionCall → Exec Unit StepRecord) : Prop :=
  ∀ batch w record w', collection batch ((), w) = .ok record ((), w') → record.status ≠ .failed →
    StepFits validity scope .flowCollection record

/-- Collections return valid ledgers at every depth. -/
theorem collectionsOf_fit (laws : Keywords validity) (r : WorkflowRunner) (depth : ℕ) :
    CollectionsFit validity scope (collectionsOf r depth) := by
  intro batch w record w' ended unfailed
  cases depth with
  | zero => cases ended
  | succ depth =>
    have ended : executeCollection r (executeFlowTo r depth) batch ((), w) = .ok record ((), w') :=
      ended
    have settles := @executeCollection_settles r _ (@executeFlowTo_settles r depth) batch w
    have ran := executeCollection_ran r (executeFlowTo r depth) batch w
    rw [ended] at settles ran
    exact collection_fits laws ran settles.2 unfailed

/-- What a step records fits, unless it failed. -/
theorem stepRan_fits (typed : StepTyped validity r call.flow.name scope step compiled)
    (collections : CollectionsFit validity scope collection)
    (ran : StepRan r collection call step l w (.ok control (l₁, w₁)))
    (open_ : control = .next → evaluateGuard r call step l ≠ .ok (some false))
    (recorded : l₁.records.lookup step.name = some record)
    (unfailed : record.status ≠ .failed) : StepFits validity scope compiled record := by
  cases ran with
  | skipped guard => exact absurd guard (open_ rfl)
  | operation _ _ _ _ kind ran =>
    cases ran with
    | ended called accepted =>
      unfold FlowLocals.complete at recorded
      dsimp only at recorded
      rw [Dict.lookup_set_self] at recorded
      obtain rfl := Option.some.inj recorded
      rw [called] at accepted
      have fits := typed.outcomes kind _ _ _ _ rfl (acceptOutcome_returned accepted)
      refine ⟨fun value has => ?_, fun own => Bool.noConfusion own, fits.selection, ⟨rfl, rfl⟩⟩
      exact fits.result value ((acceptOutcome_result accepted).trans has)
  | @collectionEnded _ _ _ _ _ _ _ w' _ _ _ _ kind ended =>
    unfold FlowLocals.collect at recorded
    dsimp only at recorded
    rw [Dict.lookup_set_self] at recorded
    obtain rfl := Option.some.inj recorded
    -- The kind of the compiled step tells a collection, and only one is compiled to it.
    have same : compiled = .flowCollection := by
      have own := typed.collection
      rw [kind] at own
      cases compiled with
      | flowCollection => rfl
      | _ => cases own
    rw [same]
    exact collections _ _ _ _ ended unfailed

/-- Steps that were not begun have records that fit. -/
theorem placeholders_fit {steps : List StepPlan}
    (typed : ∀ step ∈ steps, ∃ compiled, StepTyped validity r call.flow.name scope step compiled) :
    ∀ entry ∈ placeholders steps, ∃ compiled, scope.steps.lookup entry.1 = some compiled ∧
      StepFits validity scope compiled entry.2 := by
  intro entry mem
  obtain ⟨step, among, rfl⟩ := List.mem_map.mp mem
  obtain ⟨compiled, own⟩ := typed step among
  exact ⟨compiled, own.listed, skippedStep_fits own.collection⟩

/-- The records of a flow that its steps did not fail fit. -/
theorem stepsShape_fits {sees : Sees} {steps : List StepPlan}
    {earlier records : List (String × StepRecord)}
    {w' : World} {stop : FlowStop} (collections : CollectionsFit validity scope collection)
    (typed : ∀ step ∈ steps, ∃ compiled, StepTyped validity r call.flow.name scope step compiled)
    (shape : StepsShape r collection call sees earlier steps l w records stop w')
    (open_ : ∀ error, stop ≠ .failed error) :
    ∀ entry ∈ records, ∃ compiled, scope.steps.lookup entry.1 = some compiled ∧
      StepFits validity scope compiled entry.2 := by
  induction shape with
  | done => exact List.forall_mem_nil _
  | skipped _ _ _ _ ih =>
    obtain ⟨⟨compiled, own⟩, rest⟩ := List.forall_mem_cons.mp typed
    exact List.forall_mem_cons.mpr
      ⟨⟨compiled, own.listed, skippedStep_fits own.collection⟩, ih rest open_⟩
  | completed _ unguarded ran recorded status _ ih =>
    obtain ⟨⟨compiled, own⟩, rest⟩ := List.forall_mem_cons.mp typed
    refine List.forall_mem_cons.mpr ⟨⟨compiled, own.listed,
      stepRan_fits own collections ran (fun _ => unguarded) recorded ?_⟩, ih rest open_⟩
    rw [status]
    exact Status.noConfusion
  | reviewed _ ran recorded status =>
    obtain ⟨⟨compiled, own⟩, rest⟩ := List.forall_mem_cons.mp typed
    refine List.forall_mem_cons.mpr ⟨⟨compiled, own.listed,
      stepRan_fits own collections ran (fun next => Control.noConfusion next) recorded ?_⟩,
        placeholders_fit rest⟩
    rw [status]
    exact Status.noConfusion
  | collectionFailed => exact absurd rfl (open_ _)
  | raised => exact absurd rfl (open_ _)
  | refused => exact absurd rfl (open_ _)

end Steps

/-! ## Flows -/

section Flows

variable {resources : SchemaResources} (validity : Validity resources) (r : WorkflowRunner)

/-- A flow as its scope knows it: validated inputs are of its input schema, and its operations return results
of their schemas. -/
structure FlowTyped (scope : WorkflowScope) (flow : FlowPlan) (local_ : FlowScope) : Prop where
  schemas : local_.schemas = scope.schemas
  input : ∀ inputs, r.services.validateFlowInput flow.name (.obj inputs) = .ok () →
    local_.payload.Admits validity (.obj inputs)
  output : ∀ output, flow.output = some output → ShortBinding output
  steps : ∀ step ∈ flow.steps, ∃ compiled, StepTyped validity r flow.name local_ step compiled

/-- The scope of a workflow, with the scope of each of its flows. -/
structure Typed (scope : WorkflowScope) : Prop where
  flows : ∀ flow ∈ scope.flows, r.plan.flow? flow.name = some flow
  own : scope.completed = []
  each : ∀ flow ∈ r.plan.flows, ∀ local_, scope.flowScopes.lookup flow.name = some local_ →
    FlowTyped validity r scope flow local_

/-- A run of a flow without an error, and with a result of the flow. -/
def TypedRun (scope : WorkflowScope) : RunFact := fun flow run =>
  run.error = none ∧ ∀ local_, scope.flowScopes.lookup flow.name = some local_ →
    RunFits validity scope flow local_ run

variable {validity r} {scope : WorkflowScope}

/-- The facts of a run are about its outcome. -/
theorem typedRun_outcomes : OfOutcomes (TypedRun validity scope) := fun _ _ own => own

/-- A flow that has not run has no result. -/
theorem typedRun_skipped (flow : FlowPlan) : TypedRun validity scope flow (skipped flow).toFlowRun :=
  ⟨rfl, fun _ _ _ _ _ none_ => by cases none_⟩

/-- The input of a flow is a result of it when it has no output. -/
theorem FlowTyped.input_admits (laws : Keywords validity) {flow : FlowPlan} {local_ : FlowScope}
    (typed : FlowTyped validity r scope flow local_) {inputs : Object}
    (valid : r.services.validateFlowInput flow.name (.obj inputs) = .ok ()) :
    (inputStatic scope.schemas [("type", .str "object")] local_.inputPath).Admits validity
    (.obj inputs) := by
  have admits := typed.input inputs valid
  unfold FlowScope.payload at admits
  rw [typed.schemas] at admits
  cases path : local_.inputPath with
  | none => exact static_admits_iff.mpr ⟨_, List.mem_singleton_self _, valid_ofType laws (.object inputs)⟩
  | some path' =>
    rw [path] at admits
    exact admits

/-- A flow that did not fail returns a result of its own. -/
theorem Typed.flowsHave (laws : Keywords validity) (typed : Typed validity r scope) :
    FlowsHave r (TypedRun validity scope) := by
  intro depth call w valid unfailed
  have consistent := (@executeFlowTo_settles r depth call w).2
  refine ⟨consistent.unfailed unfailed, fun local_ listed static known value has => ?_⟩
  have flow := typed.each call.flow (WorkflowPlan.flow?_mem valid.known) local_ listed
  have ran := executeFlowWith_ran r (collectionsOf r depth) call w
  rw [← executeFlowTo_eq] at ran
  have shape := ran.shape valid.whole (collectionsOf_settles r depth)
  obtain ⟨inputs, payload, accepted⟩ := valid.input
  obtain ⟨result, returned, projected⟩ := shape.projected unfailed
  obtain rfl := Option.some.inj (returned.symm.trans has)
  unfold Projected at projected
  unfold WorkflowScope.flowResult at known
  cases output : call.flow.output with
  | none =>
    -- Without an output the flow returns its input.
    rw [output] at projected known
    obtain rfl := Except.ok.inj known
    have projected : result = call.envelope.payload := projected
    rw [projected, payload]
    exact flow.input_admits laws accepted
  | some binding =>
    rw [output] at projected known
    dsimp only at known projected
    rw [typed.own, List.contains_nil, if_neg Bool.false_ne_true] at known
    obtain ⟨started, stop, w₁, steps, status, -⟩ := shape.steps
    have open_ : ∀ error, stop ≠ .failed error := by
      rintro error rfl
      cases status with
      | failed status => exact unfailed status
      | outputFailed _ status => exact unfailed status
    -- No step failed, so the output reads records that fit only.
    have fits := stepsShape_fits (collectionsOf_fit laws r depth) flow.steps steps open_
    have admitted : local_.payload.Admits validity call.envelope.payload := by
      rw [payload]
      exact flow.input inputs accepted
    have data : FlowData validity local_ call.envelope (executeFlowTo r depth call w).1.1.steps :=
      ⟨admitted, fun name record found => fits _ (Dict.mem_of_lookup found)⟩
    exact bindingStatic_admits (data.admits laws) binding (flow.output binding output) known projected

/-- Records of typed runs are those that the scope describes. -/
theorem Typed.recordsFit (typed : Typed validity r scope) {records : Records}
    (holding : Holding r.plan (TypedRun validity scope) records) :
    RecordsFit validity scope records := by
  intro name record found flow local_ here
  -- The scope finds a flow by its name, which is the flow of the plan with that name.
  obtain ⟨flow', known, listed⟩ := Option.bind_eq_some_iff.mp here
  obtain ⟨local', belongs, same⟩ := Option.map_eq_some_iff.mp listed
  obtain ⟨rfl, rfl⟩ := Prod.mk.inj same
  have named := List.find?_some known
  obtain rfl : flow'.name = name := of_decide_eq_true named
  have own := holding flow' (typed.flows flow' (List.mem_of_find?_eq_some known)) record found
  exact ⟨own.run.2 local' belongs, fun attempt mem =>
    ⟨(own.attempts attempt mem).2 local' belongs, (own.attempts attempt mem).1⟩⟩

/-- The scope of the items of a callable flow is one of the workflow. -/
theorem Typed.item (typed : Typed validity r scope) (flow : FlowPlan) (inputPath : Option String) :
    Typed validity r (scope.itemScope flow inputPath) where
  flows other mem := typed.flows other (List.mem_filter.mp mem).1
  own := rfl
  each other mem local_ listed :=
    have own := typed.each other mem local_ listed
    ⟨own.schemas, own.input, own.output, own.steps⟩

end Flows

/-! ## Runs -/

/-- Operations that find nothing, over any input. -/
def boundLocal : FlowScope where
  steps := [("first", .handler "first"), ("items", .flowCollection)]
  inputPath := none
  schemas := []
  handlers := [("first", some [("type", .str "null")])]

/-- What is known at the boundaries of the example. -/
def boundScope : WorkflowScope where
  flows := boundPlan.flows
  flowScopes := boundPlan.flows.map fun flow => (flow.name, boundLocal)
  inputPath := none
  schemas := []

/-- Its first step returns what is known. -/
theorem first_typed (flow : String) :
    StepTyped plainValidity boundRunner flow boundLocal exampleStep (.handler "first") where
  listed := rfl
  collection := rfl
  outcomes := by
    rintro - n inputs context outcome - ⟨⟩
    refine ⟨?_, fun _ none_ => by cases none_⟩
    rintro _ ⟨⟩
    exact static_admits_iff.mpr ⟨_, List.mem_singleton_self _, valid_ofType plainKeywords .null⟩

/-- Its collection returns a ledger. -/
theorem items_typed (flow : String) :
    StepTyped plainValidity boundRunner flow boundLocal itemsStep .flowCollection where
  listed := rfl
  collection := rfl
  outcomes operation := by cases operation

/-- Every flow has one step and returns its input. -/
theorem bound_steps : ∀ flow ∈ boundPlan.flows,
    flow.output = none ∧ (flow.steps = [exampleStep] ∨ flow.steps = [itemsStep]) := by
  intro flow mem
  simp only [boundPlan, List.mem_cons, List.not_mem_nil, or_false] at mem
  rcases mem with rfl | rfl | rfl | rfl | rfl
  · exact ⟨rfl, .inl rfl⟩
  · exact ⟨rfl, .inr rfl⟩
  · exact ⟨rfl, .inl rfl⟩
  · exact ⟨rfl, .inl rfl⟩
  · exact ⟨rfl, .inl rfl⟩

/-- Its steps return what is known. -/
theorem bound_typed : Typed plainValidity boundRunner boundScope where
  flows flow mem := WorkflowPlan.flow?_of_mem mem
  own := rfl
  each flow mem local_ listed := by
    obtain ⟨other, -, same⟩ := List.mem_map.mp (Dict.mem_of_lookup listed)
    obtain ⟨-, rfl⟩ := Prod.mk.inj same
    obtain ⟨returns, steps⟩ := bound_steps flow mem
    refine ⟨rfl, fun inputs _ => anything_admits _, fun output projects => ?_, ?_⟩
    · rw [returns] at projects
      cases projects
    · rcases steps with steps | steps
      all_goals rw [steps]
      · exact List.forall_mem_singleton.mpr ⟨_, first_typed flow.name⟩
      · exact List.forall_mem_singleton.mpr ⟨_, items_typed flow.name⟩

section Runs

variable {resources : SchemaResources} (validity : Validity resources)

/-- The static value of every binding admits what the binding resolves to. -/
def Respected (scope : WorkflowScope) (context : Json) : Prop :=
  ∀ binding static value, ShortBinding binding →
    bindingStatic resources (scope.resolve resources) binding = .ok static →
    resolveBinding context binding = .ok value → static.Admits validity value

variable {validity} (laws : Keywords validity) {r : WorkflowRunner} {scope : WorkflowScope}
  (typed : Typed validity r scope) {declared : FlowPlan → Option (List String)}
  {retryOf : List (String × String)} {graph : Graph}
  (repeats : validateRepeats r.plan declared = .ok retryOf)
    (accepted : validateGraph r.plan retryOf = .ok graph)
  {envelope : AcceptedEnvelope} {place : Boundary} {records : Records}
  (reached : .boundary place records ∈ (run r envelope .workflow).2.log)
include laws typed repeats accepted reached

/-- At a boundary the scope describes what an envelope with an input of its schema finds. -/
theorem boundary_respected {received : AcceptedEnvelope}
    (payload : (inputStatic scope.schemas [] scope.inputPath).Admits validity received.payload) :
    Respected validity scope (workflowContext received records) := by
  have spec := validateGraph_spec repeats accepted
  have ready := run_ready spec typedRun_outcomes (typed.flowsHave laws) typedRun_skipped _
    reached place records rfl
  have data : BoundaryData validity scope received records := ⟨payload, typed.recordsFit ready.2⟩
  intro binding static value short known resolved
  exact bindingStatic_admits (data.admits laws) binding short known resolved

/-- In every run of an accepted workflow whose inputs and operations keep to their schemas, at every boundary,
whatever a binding resolves to is a value that its static value admits; for a callable flow that repeats in a
collection this is so in the scope of its items. -/
theorem run_respectsScopes :
    ((inputStatic scope.schemas [] scope.inputPath).Admits validity envelope.payload →
      Respected validity scope (workflowContext envelope records)) ∧
    ∀ flow ∈ r.plan.flows, ∀ local_, scope.flowScopes.lookup flow.name = some local_ →
    ∀ inputs received,
      r.services.validateFlowInput flow.name (.obj inputs) = .ok () → received.payload = .obj inputs →
      Respected validity (scope.itemScope flow local_.inputPath)
      (workflowContext received records) := by
  refine ⟨boundary_respected laws typed repeats accepted
      reached, fun flow mem local_ listed inputs received valid
    same => ?_⟩
  have own := typed.each flow mem local_ listed
  have admits := own.input inputs valid
  unfold FlowScope.payload at admits
  rw [own.schemas] at admits
  refine boundary_respected laws (typed.item flow local_.inputPath) repeats accepted reached ?_
  rw [same]
  exact admits

omit laws typed repeats accepted reached in
/-- The last flow reads the attempts that the scope describes. -/
theorem bound_respectsScopes :
    ∃ records, .boundary (.input "close") records ∈
    (run boundRunner exampleEnvelope .workflow).2.log ∧
      Respected plainValidity boundScope (workflowContext exampleEnvelope records) := by
  obtain ⟨records, reached⟩ := @bound_reached (.input "close") (by decide +kernel)
  exact ⟨records, reached, (run_respectsScopes plainKeywords bound_typed bound_repeats
      bound_graph reached).1
    (anything_admits _)⟩

end Runs

end Foliqant.Compiler
