import Foliqant.Common.Fallible
import Foliqant.Compiler.StepBindings
import Foliqant.Core.FlowShape
import Foliqant.Decisions.NativeSpec

/-!
# What accepted step bindings read

When its turn comes, a step sees the records of the earlier steps: an unconditional one completed, so
its record has the fields that its kind reports. A pointer that the checks found available and possible
then misses nothing but data. The two checks ask for one such member each, not for the same one.
-/

namespace Foliqant.Compiler

open Foliqant.Core Foliqant.Decisions Exec JsonText

/-! ## Pointers by their tokens -/

/-- The value a token selects. -/
def childToken (value : Json) (token : String) : Option Json :=
  match value with
  | .obj members => members.lookup token
  | .arr items => indexItem items token.toList
  | _ => none

/-- The value at the end of the tokens. -/
def lookupTokens (value : Json) : List String → Option Json
  | [] => some value
  | token :: rest => (childToken value token).bind (lookupTokens · rest)

/-- No tokens lead to the value itself. -/
@[simp] theorem lookupTokens_nil (value : Json) : lookupTokens value [] = some value := rfl

/-- Parts of a pointer are read by what they unescape to. -/
theorem lookupParts_eq_tokens (value : Json) (parts : List (List Char)) :
    lookupParts value parts =
      lookupTokens value (parts.map fun part => String.ofList (unescapePart part)) := by
  induction parts generalizing value with
  | nil => rfl
  | cons part rest ih =>
    have hchild : child value part = childToken value (String.ofList (unescapePart part)) := by
      cases value with
      | arr items => rw [child, childToken, String.toList_ofList]
      | _ => rfl
    rw [lookupParts, List.map_cons, lookupTokens, hchild]
    exact congrArg _ (funext fun found => ih found)

/-- The parts of a pointer that starts with a slash. -/
theorem splitOn_slash (rest : List Char) :
    ('/' :: rest).splitOn '/' = [] :: rest.splitOn '/' := by
  rw [List.splitOn, List.splitOn, List.splitOnP_cons_eq_if_modifyHead, if_pos (by simp)]

/-- A pointer looks its tokens up. -/
theorem lookupPointer_tokens {pointer : String} {context : Json} {found : Option Json}
    (h : lookupPointer pointer context = .ok found) :
    found = lookupTokens context (tokens pointer) := by
  unfold lookupPointer at h
  by_cases valid : pointerValid pointer = true
  · simp only [valid, Bool.not_true, Bool.false_eq_true, if_false] at h
    by_cases empty : pointer.toList = []
    · rw [if_pos empty] at h
      rw [tokens, empty]
      exact (Except.ok.inj h).symm
    · rw [if_neg empty] at h
      obtain ⟨rest, hrest⟩ : ∃ rest, pointer.toList = '/' :: rest := by
        unfold pointerValid at valid
        simp only [empty, decide_false, Bool.false_or, Bool.and_eq_true, decide_eq_true_eq] at valid
        cases chars : pointer.toList with
        | nil => exact absurd chars empty
        | cons first rest =>
          rw [chars] at valid
          exact ⟨rest, by rw [Option.some.inj valid.1.1]⟩
      rw [← Except.ok.inj h, lookupParts_eq_tokens, tokens, pointerParts, hrest, splitOn_slash]
      rfl
  · rw [if_pos (by simpa using valid)] at h
    cases h

/-! ## The tokens of a checked pointer -/

/-- A checked pointer is empty, or reads the payload, the metadata, all steps, or a declared step. -/
inductive CheckedTokens (steps : List StepPlan) (pointer : String) : Prop
  | whole (path : tokens pointer = [])
  | payload {below : List String} (path : tokens pointer = "payload" :: below)
  | metadata {below : List String} (path : tokens pointer = "metadata" :: below)
  | steps (path : tokens pointer = ["steps"])
  | step {name : String} {below : List String} (path : tokens pointer = "steps" :: name :: below)
      (reference : stepReference pointer = some name) (declared : name ∈ steps.map StepPlan.name)

/-- What the check of a pointer promises about its tokens. -/
theorem flowPointerCheck_spec {steps : List StepPlan} {pointer : String}
    (h : flowPointerCheck steps pointer = .ok ()) : CheckedTokens steps pointer := by
  obtain ⟨_, root, declared⟩ := Except.bind_eq_ok.mp h
  have root := demand_eq_ok.mp root
  have declared := demand_eq_ok.mp declared
  by_cases empty : pointer.toList = []
  · refine .whole ?_
    rw [tokens, empty]
    rfl
  rw [decide_eq_false empty, Bool.false_or] at root
  cases parts : pointer.toList.splitOn '/' with
  | nil =>
    rw [parts] at root
    cases root
  | cons first rest =>
    cases rest with
    | nil =>
      rw [parts] at root
      cases root
    | cons base rest =>
      rw [parts] at root
      have mem : base ∈ flowRoots := of_decide_eq_true root
      have path : tokens pointer = String.ofList (unescapePart base) ::
          rest.map fun part => String.ofList (unescapePart part) := by
        rw [tokens, parts]
        rfl
      have hroots : base = "payload".toList ∨ base = "metadata".toList ∨ base = "steps".toList := by
        simpa [flowRoots] using mem
      rcases hroots with rfl | rfl | rfl
      · exact .payload path
      · exact .metadata path
      · cases rest with
        | nil => exact .steps path
        | cons name below =>
          have reference : stepReference pointer = some (String.ofList (unescapePart name)) := by
            rw [stepReference, parts]
            exact if_pos rfl
          rw [reference] at declared
          exact .step path reference (of_decide_eq_true declared)

/-! ## Accepted bindings -/

section Accepted

variable {check : String → Except BindingError Unit} {available : String → Bool}

/-- Each of the checked bindings passed. -/
theorem requireBindings_mem {bindings : Bindings}
    (h : requireBindings check available bindings = .ok ()) {name : String} {binding : BindingPlan}
    (mem : (name, binding) ∈ bindings) : requireBinding check available binding = .ok () := by
  induction bindings with
  | nil => cases mem
  | cons entry rest ih =>
    obtain ⟨other, first⟩ := entry
    unfold requireBindings at h
    obtain ⟨_, required, others⟩ := Except.bind_eq_ok.mp h
    rcases List.mem_cons.mp mem with same | mem
    · cases same
      exact required
    · exact ih others mem

/-- A required pointer was checked and is available. -/
theorem requireBinding_pointer {path : String}
    (h : requireBinding check available (.pointer path none) = .ok ()) :
    check path = .ok () ∧ available path = true := by
  unfold requireBinding at h
  obtain ⟨_, checked, h⟩ := Except.bind_eq_ok.mp h
  exact ⟨checked, demand_eq_ok.mp h⟩

/-- Each candidate was checked and one is available. -/
theorem requireBinding_firstOf {members : List String}
    (h : requireBinding check available (.firstOf members none) = .ok ()) :
    (∀ member ∈ members, check member = .ok ()) ∧ ∃ member ∈ members, available member = true := by
  unfold requireBinding at h
  obtain ⟨_, checked, h⟩ := Except.bind_eq_ok.mp h
  exact ⟨Except.forM_eq_ok.mp checked, List.any_eq_true.mp (demand_eq_ok.mp h)⟩

variable {steps : List StepPlan}

/-- Each step is checked against the names of the steps before it. -/
theorem validateSteps_mem {conditional before : List String} {done rest : List StepPlan}
    {step : StepPlan} (h : validateSteps steps conditional before (done ++ step :: rest) = .ok ()) :
    requireBindings (flowPointerCheck steps)
      (stepAvailable steps (before ++ done.map StepPlan.name) conditional) step.bindings =
      .ok () := by
  induction done generalizing before with
  | nil =>
    rw [List.nil_append, validateSteps] at h
    obtain ⟨_, first, -⟩ := Except.bind_eq_ok.mp h
    unfold validateStep at first
    obtain ⟨_, required, -⟩ := Except.bind_eq_ok.mp first
    rwa [List.map_nil, List.append_nil]
  | cons earlier done ih =>
    rw [List.cons_append, validateSteps] at h
    obtain ⟨_, -, others⟩ := Except.bind_eq_ok.mp h
    have required := ih others
    rwa [List.append_assoc] at required

/-- A binding without default that reads a pointer or the first of several ones. -/
def isRequired : BindingPlan → Bool
  | .pointer _ none | .firstOf _ none => true
  | _ => false

/-- The pointers of a required binding are checked. -/
theorem requireBinding_checked {binding : BindingPlan} (required : isRequired binding = true)
    (h : requireBinding check available binding = .ok ()) :
    ∀ pointer ∈ pointers binding, check pointer = .ok () := by
  intro pointer mem
  cases binding with
  | pointer path default =>
    cases default with
    | some value => cases required
    | none =>
      obtain rfl : pointer = path := by simpa [pointers] using mem
      exact (requireBinding_pointer h).1
  | firstOf members default =>
    cases default with
    | some value => cases required
    | none => exact (requireBinding_firstOf h).1 pointer (by simpa [pointers] using mem)
  | literal value => cases required
  | fields entries => cases required

/-- A binding, or one of the fields of a binding at any depth. -/
inductive FieldOf : BindingPlan → BindingPlan → Prop
  | here {binding : BindingPlan} : FieldOf binding binding
  | field {entries : Bindings} {name : String} {outer binding : BindingPlan}
      (mem : (name, outer) ∈ entries) (within : FieldOf outer binding) :
      FieldOf (.fields entries) binding

/-- The fields of a required binding are required. -/
theorem requireBinding_within {outer binding : BindingPlan} (within : FieldOf outer binding)
    (h : requireBinding check available outer = .ok ()) :
    requireBinding check available binding = .ok () := by
  induction within with
  | here => exact h
  | field mem _ ih =>
    unfold requireBinding at h
    exact ih (requireBindings_mem h mem)

/-- Each of the checked bindings may have data. -/
theorem bindingsPossible_mem {choice : StepPlan → Bool} {schema : String → Bool} {bindings : Bindings}
    (h : bindingsPossible steps choice schema bindings = true) {name : String} {binding : BindingPlan}
    (mem : (name, binding) ∈ bindings) : bindingPossible steps choice schema binding = true := by
  induction bindings with
  | nil => cases mem
  | cons entry rest ih =>
    obtain ⟨other, first⟩ := entry
    unfold bindingsPossible at h
    obtain ⟨possible, others⟩ := (Bool.and_eq_true _ _).mp h
    rcases List.mem_cons.mp mem with same | mem
    · cases same
      exact possible
    · exact ih others mem

/-- The fields of a possible binding are possible. -/
theorem bindingPossible_within {choice : StepPlan → Bool} {schema : String → Bool}
    {outer binding : BindingPlan} (within : FieldOf outer binding)
    (h : bindingPossible steps choice schema outer = true) :
    bindingPossible steps choice schema binding = true := by
  induction within with
  | here => exact h
  | field mem _ ih =>
    unfold bindingPossible at h
    exact ih (bindingsPossible_mem h mem)

/-- Each binding of each step may have data. -/
theorem validateSchemaBindings_mem {choice : StepPlan → Bool} {schema : String → Bool}
    (h : validateSchemaBindings steps choice schema = .ok ()) {step : StepPlan} (mem : step ∈ steps)
    {name : String} {binding : BindingPlan} (bound : (name, binding) ∈ step.bindings) :
    bindingPossible steps choice schema binding = true :=
  bindingsPossible_mem (demand_eq_ok.mp (Except.forM_eq_ok.mp h step mem)) bound

end Accepted

/-! ## The records when a step has its turn -/

/-- A loop over the steps of a flow comes to the turn of later steps. -/
inductive Reaches (r : WorkflowRunner) (collection : CollectionCall → Exec Unit StepRecord)
    (call : FlowCall) : List StepPlan → FlowLocals → World → List StepPlan → FlowLocals → World → Prop
  | here {steps : List StepPlan} {l : FlowLocals} {w : World} :
      Reaches r collection call steps l w steps l w
  | next {step : StepPlan} {rest remaining : List StepPlan} {l l₁ l' : FlowLocals} {w w₁ w' : World}
      (ran : executeStep r collection call step (l, w) = .ok .next (l₁, w₁))
      (later : Reaches r collection call rest l₁ w₁ remaining l' w') :
      Reaches r collection call (step :: rest) l w remaining l' w'

/-- The decision steps of a runner decide by their compiled plans. -/
def Decides (plans : StepPlan → DecisionStepPlan) (r : WorkflowRunner) (steps : List StepPlan) :
    Prop :=
  ∀ step ∈ steps, ∀ bindings, step.kind = .decision bindings → ∀ n inputs context outcome,
    (r.services.execute n step inputs context).1 = .returned outcome →
    ∃ (dumps : Json → Option String) (stepId : String) (authored : DecisionStepAuthoring)
      (sources : Object) (task : DecisionInput) (raw : RawOutput) (decision : ValidatedDecision),
      compileDecision stepId authored = .ok (plans step) ∧
      buildDecisionInput dumps (plans step) sources = .ok task ∧
      validateDecisionResult (plans step) task raw = .ok decision ∧ outcome = decision.outcome

/-- Whether the plan of a step asks a single choice question. -/
def asksChoice (plans : StepPlan → DecisionStepPlan) (step : StepPlan) : Bool :=
  (plans step).singleChoice

/-- The record of a step whose turn is over. -/
structure Recorded (plans : StepPlan → DecisionStepPlan) (step : StepPlan) (record : StepRecord) :
    Prop where
  collection : record.collection = step.kind.isCollection
  completed : step.guard = none → record.status = .completed
  result : step.guard = none → ∃ value, record.result = some value
  selection : step.guard = none → isSingleChoice (asksChoice plans) step = true →
    ∃ selection, record.selection = some selection ∧ selection.category.description.isSome = true

/-- What a loop over the steps of a flow knows between two of them. -/
structure Turn (plans : StepPlan → DecisionStepPlan) (done rest : List StepPlan) (l : FlowLocals) :
    Prop where
  done : ∀ step ∈ done, ∃ record, l.records.lookup step.name = some record ∧
    Recorded plans step record
  rest : ∀ step ∈ rest, l.records.lookup step.name = some (skippedStep step)

/-- The records of collections have a ledger unless they failed. -/
def KeepsLedgers (collection : CollectionCall → Exec Unit StepRecord) : Prop :=
  ∀ batch w record w', collection batch ((), w) = .ok record ((), w') →
    record.collection = true ∧ (record.status ≠ .failed → ∃ ledger, record.result = some ledger)

/-- Collections keep their ledgers at every depth. -/
theorem collectionsOf_keepsLedgers (r : WorkflowRunner) (depth : ℕ) :
    KeepsLedgers (collectionsOf r depth) := by
  intro batch w record w' ended
  cases depth with
  | zero => cases ended
  | succ depth =>
    have ran := executeCollection_ran r (executeFlowTo r depth) batch w
    have hended : executeCollection r (executeFlowTo r depth) batch ((), w)
        = .ok record ((), w') := ended
    rw [hended] at ran
    cases ran with
    | recorded => exact ⟨rfl, fun fails => ⟨_, if_neg fails⟩⟩

/-- An accepted outcome has the value that the executor returned. -/
theorem acceptOutcome_returned {executed : Executed} {kind : StepKind} {outcome : StepOutcome}
    {value : Json} (h : acceptOutcome executed kind = .ok (outcome, value)) :
    executed = .returned outcome := by
  cases executed with
  | raised error => cases h
  | malformed => cases h
  | returned given =>
    simp only [acceptOutcome, fail] at h
    split_ifs at h
    cases result : given.result with
    | none =>
      rw [result] at h
      cases h
    | some found =>
      simp only [result] at h
      split_ifs at h
      cases h
      rfl

section Turns

variable {plans : StepPlan → DecisionStepPlan} {r : WorkflowRunner}
  {collection : CollectionCall → Exec Unit StepRecord} {call : FlowCall} {done rest : List StepPlan}
  {step : StepPlan} {l l₁ : FlowLocals} {w w₁ : World}

/-- A completed single choice has selected a category, with its description. -/
theorem decision_selects {steps : List StepPlan} (decides : Decides plans r steps)
    (mem : step ∈ steps) {n : ℕ} {inputs : Object} {context : StepContext} {outcome : StepOutcome}
    (returned : (r.services.execute n step inputs context).1 = .returned outcome)
    (choice : isSingleChoice (asksChoice plans) step = true)
    (answered : outcome.needsReview = false) :
    ∃ selection, outcome.selection = some selection ∧
      selection.category.description.isSome = true := by
  unfold isSingleChoice at choice
  cases kind : step.kind with
  | decision bindings =>
    rw [kind] at choice
    obtain ⟨_, _, _, _, task, _, decision, compiled, built, accepted, rfl⟩ :=
      decides step mem bindings kind n inputs context outcome returned
    obtain ⟨output, -, fits, decided⟩ := validateDecisionResult_decided accepted
    have selects := decided.selects (compileDecision_compiled compiled)
      (buildDecisionInput_questions built) (by
        intro item mem
        exact fits.fits item.1 (List.mem_map_of_mem (mem_of_mem_inQuestionOrder mem)))
    have answered : decision.answerable = true := by simpa [ValidatedDecision.outcome] using answered
    cases selects with
    | without other => exact absurd (choice.symm.trans other) Bool.true_eq_false.mp
    | choice _ _ _ selects =>
      obtain ⟨selection, selected⟩ : ∃ selection, decision.selection = some selection := by
        rw [answered] at selects
        generalize decision.selection = selected at selects
        cases selects with
        | model => exact ⟨_, rfl⟩
      exact ⟨selection, selected, decided.describes answered selected⟩
  | _ =>
    rw [kind] at choice
    cases choice

/-- Recording a step whose turn it is. -/
theorem Turn.set (h : Turn plans done (step :: rest) l)
    (nodup : ((done ++ step :: rest).map StepPlan.name).Nodup) {record : StepRecord}
    (recorded : Recorded plans step record)
    (records : l₁.records = Dict.set step.name record l.records) :
    Turn plans (done ++ [step]) rest l₁ := by
  rw [List.map_append, List.map_cons] at nodup
  have later : ∀ other ∈ done ++ rest, other.name ≠ step.name := by
    intro other mem same
    rw [List.nodup_middle, List.nodup_cons, ← List.map_append] at nodup
    exact nodup.1 (List.mem_map.mpr ⟨other, mem, same⟩)
  constructor
  · intro other mem
    rw [records]
    rcases List.mem_append.mp mem with mem | mem
    · rw [Dict.lookup_set_of_ne (later other (List.mem_append_left _ mem))]
      exact h.done other mem
    · rw [List.mem_singleton.mp mem]
      exact ⟨record, Dict.lookup_set_self _ _ _, recorded⟩
  · intro other mem
    rw [records, Dict.lookup_set_of_ne (later other (List.mem_append_right _ mem))]
    exact h.rest other (List.mem_cons_of_mem _ mem)

/-- The next turn after a step that the loop passes. -/
theorem Turn.next (h : Turn plans done (step :: rest) l)
    (nodup : ((done ++ step :: rest).map StepPlan.name).Nodup)
    (decides : Decides plans r (done ++ step :: rest)) (settles : Settles collection)
    (ledgers : KeepsLedgers collection)
    (ran : StepRan r collection call step l w (.ok .next (l₁, w₁))) :
    Turn plans (done ++ [step]) rest l₁ := by
  have mem : step ∈ done ++ step :: rest := List.mem_append_right _ List.mem_cons_self
  generalize result : (EStateM.Result.ok .next (l₁, w₁) :
    EStateM.Result Exn (FlowLocals × World) Control) = ended at ran
  cases ran with
  -- none of these goes on to the next step
  | late => cases result
  | guardFailed => cases result
  | limit => cases result
  | inputsFailed => cases result
  | collectionRaised => cases result
  | skipped guard =>
    cases result
    -- only a guarded step is skipped
    have guarded : step.guard ≠ none := by
      intro unguarded
      rw [evaluateGuard, unguarded] at guard
      cases guard
    have recorded : Recorded plans step (skippedStep step) :=
      ⟨rfl, fun none => absurd none guarded, fun none => absurd none guarded,
        fun none => absurd none guarded⟩
    constructor
    · intro other mem
      rcases List.mem_append.mp mem with mem | mem
      · exact h.done other mem
      · rw [List.mem_singleton.mp mem]
        exact ⟨_, h.rest step List.mem_cons_self, recorded⟩
    · exact fun other mem => h.rest other (List.mem_cons_of_mem _ mem)
  | operation guard open_ within bound kind ran =>
    cases ran with
    | failed => cases result
    | @ended executed outcome value ended w' called accepted idle =>
      obtain ⟨control, state⟩ := EStateM.Result.ok.inj result
      obtain ⟨rfl, rfl⟩ := Prod.mk.inj state
      -- a step that needs a review stops the loop
      have answered : outcome.needsReview = false := by
        cases reviewed : outcome.needsReview with
        | false => rfl
        | true =>
          rw [reviewed] at control
          cases control
      refine h.set nodup ⟨kind.symm, fun _ => ?_, fun _ => ⟨value, rfl⟩, fun _ choice => ?_⟩ rfl
      · rw [answered]
        rfl
      · have returned := acceptOutcome_returned accepted
        rw [called] at returned
        exact decision_selects decides mem returned choice answered
  | @collectionEnded guarded started inputs items flows maxItems record w' guard
        open_ within bound kind
      ran =>
    obtain ⟨control, state⟩ := EStateM.Result.ok.inj result
    obtain ⟨rfl, rfl⟩ := Prod.mk.inj state
    -- so does a collection that failed or needs a review
    have passed : ¬ (record.status = .failed ∨ record.status = .needsReview) := by
      intro stopped
      rw [if_pos stopped] at control
      cases control
    have status : record.status = .completed := by
      rcases settles _ _ _ _ ran with status | status | status
      · exact status
      · exact absurd (.inr status) passed
      · exact absurd (.inl status) passed
    obtain ⟨collected, ledger⟩ := ledgers _ _ _ _ ran
    refine h.set nodup ⟨?_, fun _ => status, fun _ => ledger fun failed => passed (.inl failed),
      fun _ choice => ?_⟩ rfl
    · rw [collected, kind]
      rfl
    · unfold isSingleChoice at choice
      rw [kind] at choice
      cases choice

/-- Before the first step nothing has been passed. -/
theorem Turn.init (whole : call.stepId = none) (started : ℚ) :
    Turn plans [] call.flow.steps (call.init started) := by
  refine ⟨fun _ h => absurd h List.not_mem_nil, fun step mem => ?_⟩
  rw [(between_init whole started).records, seesPlaceholders, List.nil_append]
  refine Dict.lookup_of_mem ?_ (List.mem_map.mpr ⟨step, mem, rfl⟩)
  rw [keys_placeholders]
  exact call.flow.nodup

/-- What is known when the loop comes to a later turn. -/
theorem Turn.reaches {remaining : List StepPlan} {l' : FlowLocals} {w' : World}
    (h : Turn plans done rest l) (nodup : ((done ++ rest).map StepPlan.name).Nodup)
    (decides : Decides plans r (done ++ rest))
    (settles : Settles collection) (ledgers : KeepsLedgers collection)
    (reached : Reaches r collection call rest l w remaining l' w') :
    ∃ passed, done ++ rest = passed ++ remaining ∧ Turn plans passed remaining l' := by
  induction reached generalizing done with
  | here => exact ⟨done, rfl, h⟩
  | @next step rest remaining l l₁ l' w w₁ w' ran later ih =>
    have turned := executeStep_ran r collection call step l w
    rw [ran] at turned
    have next := h.next nodup decides settles ledgers turned
    have moved : done ++ step :: rest = (done ++ [step]) ++ rest := by
      rw [List.append_assoc]
      rfl
    rw [moved] at nodup decides
    rw [moved]
    exact ih next nodup decides

end Turns

/-! ## What the context has -/

/-- A member is found when it has a value. -/
theorem lookup_presentMembers {members : List (String × Option Json)}
    (nodup : (members.map Prod.fst).Nodup) (key : String) :
    (presentMembers members).lookup key = (members.lookup key).join := by
  unfold presentMembers
  induction members with
  | nil => rfl
  | cons member rest ih =>
    obtain ⟨name, value⟩ := member
    obtain ⟨fresh, nodup⟩ := List.nodup_cons.mp nodup
    have ih := ih nodup
    by_cases same : key = name
    · obtain rfl := same
      have absent : rest.lookup key = none := Dict.lookup_eq_none.mpr fresh
      rw [absent] at ih
      rw [List.lookup_cons_self]
      cases value with
      | none => simpa using ih
      | some value => simp
    · rw [List.lookup_cons, beq_false_of_ne same]
      cases value with
      | none => simpa using ih
      | some value =>
        simp only [List.filterMap_cons, Option.map_some]
        rw [List.lookup_cons, beq_false_of_ne same]
        exact ih

/-- A step's data is found by its name. -/
theorem lookup_records (records : List (String × StepRecord)) (name : String) :
    (records.map fun (name, record) => (name, record.data)).lookup name =
      (records.lookup name).map StepRecord.data := by
  induction records with
  | nil => rfl
  | cons entry rest ih =>
    rw [List.map_cons, List.lookup_cons, List.lookup_cons, ih]
    by_cases same : name = entry.1
    · rw [beq_iff_eq.mpr same]
      rfl
    · rw [beq_false_of_ne same]

/-- The members of a record that bindings see when they are present. -/
def dataMembers (record : StepRecord) : List (String × Option Json) :=
  [("status", some (.str record.status.value)), ("result", record.result),
    ("kind", if record.collection then some (.str "flow_collection") else none),
    ("selection", record.selection.map Selection.asJson), ("partial_result", record.partialResult),
    ("error", record.error.map ServiceError.asJson)]

/-- A member of a step's data. -/
theorem childToken_data (record : StepRecord) (field : String) :
    childToken record.data field = ((dataMembers record).lookup field).join := by
  refine lookup_presentMembers ?_ field
  show ["status", "result", "kind", "selection", "partial_result", "error"].Nodup
  decide

/-- The data that a pointer reads, with the tokens below it: the payload, the metadata or the result of
a step that completed. -/
inductive ReadsData (envelope : AcceptedEnvelope) (records : List (String × StepRecord))
    (pointer : String) : Json → List String → Prop
  | payload {below : List String} (path : tokens pointer = "payload" :: below) :
      ReadsData envelope records pointer envelope.payload below
  | metadata {below : List String} (path : tokens pointer = "metadata" :: below) :
      ReadsData envelope records pointer (.obj envelope.metadata) below
  | result {name : String} {below : List String} {record : StepRecord} {value : Json}
      (path : tokens pointer = "steps" :: name :: "result" :: below)
      (recorded : records.lookup name = some record) (completed : record.status = .completed)
      (result : record.result = some value) : ReadsData envelope records pointer value below

/-- What a pointer finds: something other than null, or what its data has below it. -/
def Finds (envelope : AcceptedEnvelope) (records : List (String × StepRecord)) (pointer : String)
    (found : Option Json) : Prop :=
  (∃ value, found = some value ∧ isPresent value = true) ∨
    ∃ root below, ReadsData envelope records pointer root below ∧ found = lookupTokens root below

section Reads

variable {plans : StepPlan → DecisionStepPlan} {schema : String → Bool} {envelope : AcceptedEnvelope}
  {done rest : List StepPlan} {step : StepPlan} {l : FlowLocals} {pointer : String}

/-- A possible path below a selection with a description is there. -/
theorem selection_finds {selection : Selection} {below : List String}
    (described : selection.category.description.isSome = true)
    (possible : selectionPossible below = true) :
    ∃ value, lookupTokens selection.asJson below = some value ∧ isPresent value = true := by
  unfold selectionPossible at possible
  split at possible
  · exact ⟨selection.asJson, rfl, rfl⟩
  · exact ⟨.str selection.origin.value, rfl, rfl⟩
  · exact ⟨selection.category.asJson, rfl, rfl⟩
  · exact ⟨.str selection.category.id, rfl, rfl⟩
  · obtain ⟨⟨id, description⟩, origin⟩ := selection
    obtain ⟨text, rfl⟩ := Option.isSome_iff_exists.mp described
    exact ⟨.str text, rfl, rfl⟩
  · cases possible

/-- A possible path in the record of a completed step. -/
theorem completed_finds {record : StepRecord} {field name : String} {below : List String}
    (path : tokens pointer = "steps" :: name :: field :: below)
    (recorded : l.records.lookup name = some record) (fields : Recorded plans step record)
    (unguarded : step.guard = none) (handler : field = "selection" → isHandler step = false)
    (possible : field = "result" ∨
      recordPossible (asksChoice plans) step (field :: below) = true) :
    Finds envelope l.records pointer (lookupTokens record.data (field :: below)) := by
  have completed := fields.completed unguarded
  obtain ⟨value, result⟩ := fields.result unguarded
  rw [lookupTokens, childToken_data]
  by_cases data : field = "result"
  · subst data
    have field : ((dataMembers record).lookup "result").join = some value := by
      rw [dataMembers, result]
      rfl
    rw [field, Option.bind_some]
    exact .inr ⟨value, below, .result path recorded completed result, rfl⟩
  -- the other fields hold what the schema of the record promises
  have possible := possible.resolve_left data
  simp only [recordPossible] at possible
  by_cases status : field = "status"
  · subst status
    obtain rfl : below = [] := by simpa using possible
    exact .inl ⟨.str record.status.value, rfl, rfl⟩
  rw [if_neg status] at possible
  by_cases kind : field = "kind"
  · subst kind
    rw [if_pos rfl, Bool.and_eq_true, decide_eq_true_iff] at possible
    obtain ⟨collection, rfl⟩ := possible
    refine .inl ⟨.str "flow_collection", ?_, rfl⟩
    rw [dataMembers, fields.collection, collection]
    rfl
  rw [if_neg kind] at possible
  by_cases selecting : field = "selection"
  · subst selecting
    rw [if_pos rfl, Bool.and_eq_true, handler rfl, Bool.false_or] at possible
    obtain ⟨choice, possible⟩ := possible
    obtain ⟨selection, selected, described⟩ := fields.selection unguarded choice
    have field : ((dataMembers record).lookup "selection").join = some selection.asJson := by
      rw [dataMembers, selected]
      rfl
    rw [field, Option.bind_some]
    exact .inl (selection_finds described possible)
  · rw [if_neg selecting] at possible
    cases possible

/-- A conditional step is one of the conditional ones. -/
theorem mem_conditionalSteps {steps : List StepPlan} (nodup : (steps.map StepPlan.name).Nodup)
    (mem : step ∈ steps) : step.name ∈ conditionalSteps steps ↔ step.guard.isSome = true := by
  unfold conditionalSteps
  constructor
  · intro conditional
    obtain ⟨other, guarded, same⟩ := List.mem_map.mp conditional
    obtain ⟨known, guarded⟩ := List.mem_filter.mp guarded
    rwa [List.inj_on_of_nodup_map nodup known mem same] at guarded
  · exact fun guarded => List.mem_map.mpr ⟨step, List.mem_filter.mpr ⟨mem, guarded⟩, rfl⟩

/-- A step is found by its name. -/
theorem findStep_of_mem {steps : List StepPlan} (nodup : (steps.map StepPlan.name).Nodup)
    (mem : step ∈ steps) : findStep steps step.name = some step :=
  Dict.find?_key nodup mem

/-- A path below the record of a step in the context of a turn. -/
theorem lookupTokens_step {records : List (String × StepRecord)} {name : String}
    {below : List String} {record : StepRecord} (recorded : records.lookup name = some record) :
    lookupTokens (bindingContext envelope records) ("steps" :: name :: below) =
      lookupTokens record.data below := by
  have found : (records.map fun (name, record) => (name, record.data)).lookup name =
      some record.data := by
    rw [lookup_records, recorded]
    rfl
  show ((records.map fun (name, record) => (name, record.data)).lookup name).bind _ = _
  rw [found]
  rfl

/-- A pointer that reads data finds what the data has below it. -/
theorem ReadsData.lookup {records : List (String × StepRecord)} {root : Json} {below : List String}
    (h : ReadsData envelope records pointer root below) :
    lookupTokens (bindingContext envelope records) (tokens pointer) = lookupTokens root below := by
  cases h with
  | payload path =>
    rw [path]
    rfl
  | metadata path =>
    rw [path]
    rfl
  | @result name _ record _ path recorded completed result =>
    have field : ((dataMembers record).lookup "result").join = some root := by
      rw [dataMembers, result]
      rfl
    rw [path, lookupTokens_step recorded, lookupTokens, childToken_data, field, Option.bind_some]

/-- An available and possible pointer finds its field, and misses at most the data below it. -/
theorem available_finds (turn : Turn plans done rest l)
    (nodup : ((done ++ rest).map StepPlan.name).Nodup)
    (checked : CheckedTokens (done ++ rest) pointer)
    (available : stepAvailable (done ++ rest) (done.map StepPlan.name)
      (conditionalSteps (done ++ rest)) pointer = true)
    (possible : pointerPossible (done ++ rest) (asksChoice plans) schema pointer = true) :
    Finds envelope l.records pointer
      (lookupTokens (bindingContext envelope l.records) (tokens pointer)) := by
  cases checked with
  | whole path =>
    rw [path]
    exact .inl ⟨_, rfl, rfl⟩
  | payload path =>
    rw [path]
    exact .inr ⟨envelope.payload, _, .payload path, rfl⟩
  | metadata path =>
    rw [path]
    exact .inr ⟨.obj envelope.metadata, _, .metadata path, rfl⟩
  | steps path =>
    rw [path]
    exact .inl ⟨_, rfl, rfl⟩
  | @step name below path reference declared =>
    unfold stepAvailable at available
    simp only [reference] at available
    split_ifs at available with prior conditional
    · -- A step with a guard has a record with a status, whether it ran or not.
      obtain ⟨earlier, mem, rfl⟩ := List.mem_map.mp prior
      obtain ⟨record, recorded, -⟩ := turn.done earlier mem
      rw [path, lookupTokens_step recorded]
      rw [path] at available
      cases below with
      | nil => exact .inl ⟨record.data, rfl, rfl⟩
      | cons field below =>
        cases below with
        | cons => cases available
        | nil =>
          obtain rfl : field = "status" := of_decide_eq_true available
          refine .inl ⟨.str record.status.value, ?_, rfl⟩
          rw [lookupTokens, childToken_data]
          rfl
    -- Without one it completed, and its required fields are there.
    · obtain ⟨earlier, mem, rfl⟩ := List.mem_map.mp prior
      obtain ⟨record, recorded, fields⟩ := turn.done earlier mem
      have known : earlier ∈ done ++ rest := List.mem_append_left _ mem
      have unguarded : earlier.guard = none := by
        rw [mem_conditionalSteps nodup known] at conditional
        simpa using conditional
      have plan := findStep_of_mem nodup known
      rw [path, lookupTokens_step recorded]
      cases below with
      | nil => exact .inl ⟨record.data, rfl, rfl⟩
      | cons field below =>
        refine completed_finds path recorded fields unguarded ?_ ?_
        · rintro rfl
          unfold optionalRecordField at available
          simpa [path, plan] using available
        · unfold pointerPossible at possible
          simp only [path, plan] at possible
          split at possible
          case isTrue data => exact .inl (Option.some.inj data)
          case isFalse => exact .inr possible

end Reads

/-! ## Missing bindings -/

/-- The error of a binding that found nothing. -/
def missingBindingError : Exn := .service ErrorCode.missingBinding.error

/-- A pointer that cannot be read is no missing binding. -/
theorem lookupPointer_error {pointer : String} {context : Json} {error : Exn}
    (h : lookupPointer pointer context = .error error) : error ≠ missingBindingError := by
  unfold lookupPointer at h
  split_ifs at h
  obtain rfl := Except.error.inj h
  decide

/-- A required pointer that is missing found nothing. -/
theorem pointer_missing {path : String} {context : Json}
    (h : resolveBinding context (.pointer path none) = .error missingBindingError) :
    lookupPointer path context = .ok none := by
  unfold resolveBinding at h
  rcases Except.bind_eq_error.mp h with h | ⟨found, looked, h⟩
  · exact absurd rfl (lookupPointer_error h)
  · cases found with
    | some value => cases h
    | none => exact looked

/-- What each candidate found. -/
theorem lookupMembers_ok {context : Json} {members : List String} {found : List (Option Json)}
    (h : lookupMembers context members = .ok found) {member : String} (mem : member ∈ members) :
    ∃ candidate ∈ found, lookupPointer member context = .ok candidate := by
  induction members generalizing found with
  | nil => cases mem
  | cons first rest ih =>
    unfold lookupMembers at h
    obtain ⟨candidate, looked, h⟩ := Except.bind_eq_ok.mp h
    obtain ⟨others, known, h⟩ := Except.bind_eq_ok.mp h
    cases h
    rcases List.mem_cons.mp mem with rfl | mem
    · exact ⟨candidate, List.mem_cons_self, looked⟩
    · obtain ⟨other, mem, looked⟩ := ih known mem
      exact ⟨other, List.mem_cons_of_mem _ mem, looked⟩

/-- Candidates that cannot be read are no missing binding. -/
theorem lookupMembers_error {context : Json} {members : List String} {error : Exn}
    (h : lookupMembers context members = .error error) : error ≠ missingBindingError := by
  induction members with
  | nil => cases h
  | cons first rest ih =>
    unfold lookupMembers at h
    rcases Except.bind_eq_error.mp h with h | ⟨_, -, h⟩
    · exact lookupPointer_error h
    · rcases Except.bind_eq_error.mp h with h | ⟨_, -, h⟩
      · exact ih h
      · cases h

/-- Candidates that are missing found nothing. -/
theorem firstOf_missing {members : List String} {context : Json}
    (h : resolveBinding context (.firstOf members none) = .error missingBindingError) :
    ∀ member ∈ members, ∃ found, lookupPointer member context = .ok found ∧
      found.filter isPresent = none := by
  unfold resolveBinding at h
  split_ifs at h with empty
  · exact absurd (Except.error.inj h) (by decide)
  rcases Except.bind_eq_error.mp h with h | ⟨found, looked, h⟩
  · exact absurd rfl (lookupMembers_error h)
  · intro member mem
    obtain ⟨candidate, known, at_⟩ := lookupMembers_ok looked mem
    refine ⟨candidate, at_, ?_⟩
    cases present : firstPresent found with
    | some value =>
      rw [present] at h
      cases h
    | none => exact List.findSome?_eq_none_iff.mp present candidate known

/-- A binding that reads nothing but absent data; with several members, null is absent. -/
inductive LacksData (envelope : AcceptedEnvelope) (records : List (String × StepRecord)) :
    BindingPlan → Prop
  | pointer {path : String} {root : Json} {below : List String}
      (reads : ReadsData envelope records path root below) (absent : lookupTokens root below = none) :
      LacksData envelope records (.pointer path none)
  | firstOf {members : List String}
      (absent : ∀ member ∈ members, ∃ root below, ReadsData envelope records member root below ∧
        (lookupTokens root below).filter isPresent = none) :
      LacksData envelope records (.firstOf members none)

/-- A pointer that both checks count on: it reads the payload, the metadata or what an earlier step
always reports, and some value can have its path. -/
def Counted (plans : StepPlan → DecisionStepPlan) (schema : String → Bool)
    (steps passed : List StepPlan) (pointer : String) : Prop :=
  stepAvailable steps (passed.map StepPlan.name) (conditionalSteps steps) pointer = true ∧
    pointerPossible steps (asksChoice plans) schema pointer = true

/-- Why a required binding is missing. -/
structure Missing (plans : StepPlan → DecisionStepPlan) (schema : String → Bool) (call : FlowCall)
    (passed : List StepPlan) (records : List (String × StepRecord)) (binding : BindingPlan) :
    Prop where
  /-- A single pointer is counted on. -/
  single : ∀ path, binding = .pointer path none → Counted plans schema call.flow.steps passed path
  /-- What is counted on is absent data. -/
  counted : ∀ pointer ∈ pointers binding, Counted plans schema call.flow.steps passed pointer →
    ∃ root below, ReadsData call.envelope records pointer root below ∧
      (lookupTokens root below).filter isPresent = none
  /-- Nothing but data is absent exactly when every other member reads data as well. -/
  lacksData_iff : LacksData call.envelope records binding ↔
    ∀ pointer ∈ pointers binding, Counted plans schema call.flow.steps passed pointer ∨
      ∃ root below, ReadsData call.envelope records pointer root below

/-- A required binding that is missing finds no member. -/
theorem members_missing {binding : BindingPlan}
    (required : isRequired binding = true) {context : Json}
    (missing : resolveBinding context binding = .error missingBindingError) :
    ∀ pointer ∈ pointers binding,
    (lookupTokens context (tokens pointer)).filter isPresent = none := by
  intro pointer mem
  cases binding with
  | pointer path default =>
    cases default with
    | some value => cases required
    | none =>
      obtain rfl : pointer = path := by simpa [pointers] using mem
      rw [← lookupPointer_tokens (pointer_missing missing)]
      rfl
  | firstOf members default =>
    cases default with
    | some value => cases required
    | none =>
      obtain ⟨found, looked, absent⟩ :=
        firstOf_missing missing pointer (by simpa [pointers] using mem)
      rwa [lookupPointer_tokens looked] at absent
  | literal value => cases required
  | fields entries => cases required

/-- A missing binding lacks data exactly when all its members read data. -/
theorem lacksData_iff_reads {envelope : AcceptedEnvelope} {records : List (String × StepRecord)}
    {binding : BindingPlan} (required : isRequired binding = true)
    (missing : resolveBinding (bindingContext envelope records) binding =
      .error missingBindingError) :
    LacksData envelope records binding ↔
      ∀ pointer ∈ pointers binding, ∃ root below, ReadsData envelope records pointer root below := by
  constructor
  · rintro (reads | absent) pointer mem
    · obtain rfl : pointer = _ := by simpa [pointers] using mem
      exact ⟨_, _, reads⟩
    · obtain ⟨root, below, reads, -⟩ := absent pointer (by simpa [pointers] using mem)
      exact ⟨root, below, reads⟩
  · intro reads
    have absent := members_missing required missing
    cases binding with
    | pointer path default =>
      cases default with
      | some value => cases required
      | none =>
        obtain ⟨root, below, reads⟩ := reads path (by simp [pointers])
        exact .pointer reads (reads.lookup.symm.trans
          (lookupPointer_tokens (pointer_missing missing)).symm)
    | firstOf members default =>
      cases default with
      | some value => cases required
      | none =>
        refine .firstOf fun member mem => ?_
        have mem : member ∈ pointers (.firstOf members none) := by simpa [pointers] using mem
        obtain ⟨root, below, reads⟩ := reads member mem
        exact ⟨root, below, reads, reads.lookup ▸ absent member mem⟩
    | literal value => cases required
    | fields entries => cases required

section Theorem

variable {plans : StepPlan → DecisionStepPlan} {schema : String → Bool} {r : WorkflowRunner}
  {call : FlowCall} {step : StepPlan} {rest : List StepPlan} {l : FlowLocals} {w w' : World}

/-- A required step binding that is missing reads absent data of the payload, the metadata or the
result of a step that completed, exactly when all its members that the checks do not count on read such
data as well. -/
theorem required_binding_missing {started : ℚ} {name : String} {outer binding : BindingPlan}
    (whole : call.stepId = none) (accepted : validateBindings call.flow.steps = .ok ())
    (possible : validateSchemaBindings call.flow.steps (asksChoice plans) schema = .ok ())
    (decides : Decides plans r call.flow.steps)
    (reached : Reaches r (collectionsOf r (MAX_COLLECTION_DEPTH - call.collectionDepth)) call
      call.flow.steps (call.init started) w (step :: rest) l w')
    (bound : (name, outer) ∈ step.bindings) (within : FieldOf outer binding)
    (required : isRequired binding = true)
    (missing : resolveBinding (bindingContext call.envelope l.records) binding =
      .error missingBindingError) :
    ∃ passed, call.flow.steps = passed ++ step :: rest ∧
      Missing plans schema call passed l.records binding := by
  obtain ⟨passed, steps, turn⟩ := (Turn.init whole started).reaches call.flow.nodup decides
    (collectionsOf_settles r _) (collectionsOf_keepsLedgers r _) reached
  rw [List.nil_append] at steps
  refine ⟨passed, steps, ?_⟩
  have nodup := call.flow.nodup
  have mem : step ∈ call.flow.steps := by
    rw [steps]
    exact List.mem_append_right _ List.mem_cons_self
  -- what the two validations said of this binding
  have checked : requireBinding (flowPointerCheck call.flow.steps)
      (stepAvailable call.flow.steps (passed.map StepPlan.name) (conditionalSteps call.flow.steps))
      binding = .ok () := by
    unfold validateBindings at accepted
    rw [steps] at accepted ⊢
    exact requireBinding_within within (requireBindings_mem (validateSteps_mem accepted) bound)
  have satisfiable := bindingPossible_within within (validateSchemaBindings_mem possible mem bound)
  have known := requireBinding_checked required checked
  have absent := members_missing required missing
  rw [steps] at nodup
  -- a member they relied on is found, unless data it reads is missing
  have counted : ∀ pointer ∈ pointers binding, Counted plans schema call.flow.steps passed pointer →
      ∃ root below, ReadsData call.envelope l.records pointer root below ∧
        (lookupTokens root below).filter isPresent = none := by
    rintro pointer mem ⟨available, possible⟩
    have known := flowPointerCheck_spec (known pointer mem)
    have missing := absent pointer mem
    rw [steps] at known available possible
    rcases available_finds turn nodup known available possible with
      ⟨value, found, present⟩ | ⟨root, below, reads, found⟩
    · rw [found, Option.filter_some, if_pos present] at missing
      cases missing
    · rw [found] at missing
      exact ⟨root, below, reads, missing⟩
  refine ⟨?_, counted, ?_⟩
  · rintro path rfl
    exact ⟨(requireBinding_pointer checked).2, by simpa [bindingPossible] using satisfiable⟩
  · rw [lacksData_iff_reads required missing]
    refine forall₂_congr fun pointer mem => ⟨Or.inr, ?_⟩
    rintro (relied | reads)
    · obtain ⟨root, below, reads, -⟩ := counted pointer mem relied
      exact ⟨root, below, reads⟩
    · exact reads

end Theorem

/-! ## Members that only one of the checks counts on -/

/-- The payload has a value. -/
def givenCondition : ConditionPlan := .leaf
  { source := .pointer "/payload/a" none, operator := .present, operand := .bool true }

/-- A step that is skipped unless the payload has a value. -/
def skippedStepPlan : StepPlan := { exampleStep with name := "cond", guard := some givenCondition }

/-- A step that needs one of several members. -/
def readerStepPlan (members : List String) : StepPlan where
  name := "reader"
  kind := .handler [("value", .firstOf members none)]

/-- A flow with a conditional step and a step that reads it. -/
def readerFlow (members : List String) : FlowPlan :=
  { exampleFlow with
    steps := [exampleStep, skippedStepPlan, readerStepPlan members]
    nodup := show ["first", "cond", "reader"].Nodup by decide }

/-- A call of that flow. -/
def readerCall (members : List String) : FlowCall :=
  { flow := readerFlow members, envelope := exampleEnvelope }

/-- The field of another kind of step in a record that is always there, and a field of a record that may
not be there. -/
def kindMembers : List String := ["/steps/first/kind", "/steps/cond/result"]

/-- A member of the payload, and a field of a record that may not be there. -/
def payloadMembers : List String := ["/payload/a", "/steps/cond/result"]

/-- The first step completes, the second one is skipped, and the binding of the third one finds
nothing. -/
def readerMisses (members : List String) : Bool :=
  match executeStep exampleRunner (collectionsOf exampleRunner (MAX_COLLECTION_DEPTH - 0))
      (readerCall members) exampleStep ((readerCall members).init 0, {}) with
  | .ok .next s =>
      match executeStep exampleRunner (collectionsOf exampleRunner (MAX_COLLECTION_DEPTH - 0))
          (readerCall members) skippedStepPlan s with
      | .ok .next (l, _) =>
          match resolveBinding (bindingContext exampleEnvelope l.records) (.firstOf members none) with
          | .error error => decide (error = missingBindingError)
          | .ok _ => false
      | _ => false
  | _ => false

/-- The reading step is reached. -/
theorem readerMisses_reaches {members : List String} (misses : readerMisses members = true) :
    ∃ l w, Reaches exampleRunner (collectionsOf exampleRunner (MAX_COLLECTION_DEPTH - 0))
      (readerCall members) (readerFlow members).steps ((readerCall members).init 0) {}
      [readerStepPlan members] l w ∧
    resolveBinding (bindingContext exampleEnvelope l.records) (.firstOf members none) =
      .error missingBindingError := by
  unfold readerMisses at misses
  split at misses
  next s first =>
    split at misses
    next l w second =>
      split at misses
      next error resolved =>
        obtain rfl : error = missingBindingError := of_decide_eq_true misses
        exact ⟨l, w, .next first (.next second .here), resolved⟩
      next => cases misses
    next => cases misses
  next => cases misses

/-- A decision plan for steps that decide nothing. -/
def noDecision : DecisionStepPlan :=
  { sources := [], sourceFormats := [], questions := [], questionMode := .multiple, fallback := none }

/-- The flow has no decisions. -/
theorem readerFlow_decides (members : List String) :
    Decides (fun _ => noDecision) exampleRunner (readerFlow members).steps := by
  intro step mem bindings kind
  have handlers : ∀ step ∈ (readerFlow members).steps, isHandler step = true := by
    simp [readerFlow, isHandler, exampleStep, skippedStepPlan, readerStepPlan]
  have handler := handlers step mem
  rw [isHandler, kind] at handler
  cases handler

/-- The reading step misses its binding. -/
theorem required_binding_missing_reader : ∃ l passed,
    (readerCall payloadMembers).flow.steps = passed ++ [readerStepPlan payloadMembers] ∧
      Missing (fun _ => noDecision) (fun _ => true) (readerCall payloadMembers) passed l
        (.firstOf payloadMembers none) := by
  obtain ⟨l, w, reached, missing⟩ := @readerMisses_reaches payloadMembers (by decide +kernel)
  have accepted : validateBindings (readerCall payloadMembers).flow.steps = .ok () := by
    decide +kernel
  have possible : validateSchemaBindings (readerCall payloadMembers).flow.steps
      (asksChoice fun _ => noDecision) (fun _ => true) = .ok () := by decide +kernel
  have whole : (readerCall payloadMembers).stepId = none := rfl
  obtain ⟨passed, steps, missing⟩ := required_binding_missing whole accepted possible
    (readerFlow_decides _) reached List.mem_cons_self .here rfl missing
  exact ⟨l.records, passed, steps, missing⟩

/-- A required binding may miss fields that its records never have: one check counts on the record of
a step that always runs, the other one on the result of a step that may be skipped. -/
theorem kindMembers_missing :
    ¬ ∀ (plans : StepPlan → DecisionStepPlan) (schema : String → Bool) (r : WorkflowRunner)
      (call : FlowCall) (step : StepPlan) (rest : List StepPlan) (l : FlowLocals) (w w' : World)
      (started : ℚ) (name : String) (members : List String),
      call.stepId = none → validateBindings call.flow.steps = .ok () →
      validateSchemaBindings call.flow.steps (asksChoice plans) schema = .ok () →
      Decides plans r call.flow.steps →
      Reaches r (collectionsOf r (MAX_COLLECTION_DEPTH - call.collectionDepth)) call
        call.flow.steps (call.init started) w (step :: rest) l w' →
      (name, .firstOf members none) ∈ step.bindings →
      resolveBinding (bindingContext call.envelope l.records) (.firstOf members none) =
        .error missingBindingError →
      LacksData call.envelope l.records (.firstOf members none) := by
  intro claim
  obtain ⟨l, w, reached, missing⟩ := @readerMisses_reaches kindMembers (by decide +kernel)
  have lacks := claim (fun _ => noDecision) (fun _ => true) exampleRunner (readerCall kindMembers)
    (readerStepPlan kindMembers) [] l {} w 0 "value" kindMembers rfl (by decide +kernel)
    (by decide +kernel) (readerFlow_decides _) reached List.mem_cons_self missing
  cases lacks with
  | firstOf absent =>
    obtain ⟨root, below, reads, -⟩ := absent "/steps/first/kind" List.mem_cons_self
    have path : tokens "/steps/first/kind" = ["steps", "first", "kind"] := by decide +kernel
    cases reads with
    | payload other => simp [path] at other
    | metadata other => simp [path] at other
    | result other => simp [path] at other

end Foliqant.Compiler
