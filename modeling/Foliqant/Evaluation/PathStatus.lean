import Foliqant.Evaluation.Snapshots
import Mathlib.Data.List.MinMax

/-!
# The record that owns a pointer

A metric looks for the status of the record around a pointer in the frozen document, and a check looks
for the record itself in the index of the snapshot. The first walks down the tokens, the second takes
the longest path.
-/

namespace Foliqant.Evaluation

open Foliqant.Core JsonText

/-- The status of a flow. -/
def FlowResult.status : FlowResult → Status
  | .mk outcome _ _ _ => outcome.status

/-- The status of a step. -/
def StepResult.status : StepResult → Status
  | .operation outcome _ _ => outcome.status
  | .collection outcome _ _ => outcome.status
  | .stopped outcome => outcome.status

/-- The status of a record. -/
def Record.status : Record → Status
  | .flow _ _ record => record.status
  | .step _ _ record => record.status

/-- The ledger of a record. -/
def Record.ledger : Record → Option (LedgerField × List ItemResult)
  | .flow _ _ _ => none
  | .step _ _ record => record.ledger

/-! ## The walk over the index -/

/-- A record of the index. -/
inductive Observation where
  | flow (observation : FlowObservation)
  | step (observation : StepObservation)

/-- The path of an observation. -/
def Observation.path : Observation → String
  | .flow observation => observation.path
  | .step observation => observation.path

/-- The status of an observation. -/
def Observation.status : Observation → Status
  | .flow observation => observation.record.status
  | .step observation => observation.record.status

/-- The innermost record that owns a pointer, on token boundaries. -/
def pathObservation (path : String) (flows : List FlowObservation) (steps : List StepObservation) :
    Option Observation :=
  ((flows.map Observation.flow ++ steps.map Observation.step).filter fun record =>
    under record.path path).argmax fun record => record.path.length

/-! ## The walk over the document -/

/-- What a mapping has under a key; nothing else has members. -/
def member (value : Option Json) (key : String) : Option Json :=
  match value with
  | some (.obj members) => members.lookup key
  | _ => none

/-- The text of a string. -/
def text : Option Json → Option String
  | some (.str text) => some text
  | _ => none

/-- The item that the tokens after a step select in the ledger of a marked collection. -/
def ledgerItem (step : Object) (field items index : String) : Option Json :=
  if text (step.lookup "kind") = some "flow_collection" ∧ field ∈ ["result", "partial_result"] ∧
      items = "items" then
    match member (step.lookup field) "items" with
    | some (.arr items) =>
        if isIndex index.toList ∧ index.length ≤ 4 then items[digitsValue index.toList]? else none
    | _ => none
  else none

/-- The status of the innermost record that the tokens after a flow lead to; the status so far where
there is no flow. -/
def flowStatus (status flow : Option Json) (parts : List String) : Option Json :=
  match flow with
  | some (.obj flow) =>
      match parts with
      | steps :: name :: rest =>
          if steps = "steps" then
            match member (flow.lookup "steps") name with
            | some (.obj step) =>
                match rest with
                | field :: items :: index :: others =>
                    flowStatus (step.lookup "status") (ledgerItem step field items index) others
                | _ => step.lookup "status"
            | _ => flow.lookup "status"
          else flow.lookup "status"
      | _ => flow.lookup "status"
  | _ => status

/-- The status of the record around a pointer, by the explicit markers of collections. -/
def documentPathStatus (path : String) (document : Json) : Option String :=
  match document, (path.toList.splitOn '/').tail.map fun part =>
    String.ofList (unescapePart part) with
  | .obj members, flows :: name :: rest =>
      if flows = "flows" then text (flowStatus none (member (members.lookup "flows") name) rest)
      else none
  | _, _ => none

/-- The most items that a ledger may have. -/
def MAX_LEDGER_ITEMS : ℕ := 1024

/-- A validated result: no ledger is longer than its contract allows. -/
structure ValidatedResult extends ExecutionResult where
  ledgers : ∀ tokens flow name step, Final toExecutionResult tokens (.step flow name step) →
    ∀ ledger ∈ step.ledger, ledger.2.length ≤ MAX_LEDGER_ITEMS

/-- The syntax of a pointer without a limit on its parts. -/
def IsPointer (path : String) : Prop :=
  (path = "" ∨ path.toList.head? = some '/') ∧ escapesValid path.toList = true

/-- Validly escaped text is an escaped name with the pointer of more tokens behind it. -/
theorem escaped_of_escapesValid {value : List Char} (valid : escapesValid value = true) :
    ∃ name tokens, value = escaped name ++ (pointer tokens).toList := by
  induction value using escapesValid.induct with
  | case1 => exact ⟨[], [], rfl⟩
  | case2 rest ih =>
    obtain ⟨name, tokens, rfl⟩ := ih valid
    exact ⟨'~' :: name, tokens, by rw [escaped_tilde]; rfl⟩
  | case3 rest ih =>
    obtain ⟨name, tokens, rfl⟩ := ih valid
    exact ⟨'/' :: name, tokens, by rw [escaped_slash]; rfl⟩
  | case4 c rest zero one ih =>
    rw [escapesValid, Bool.and_eq_true, bne_iff_ne] at valid
    · obtain ⟨name, tokens, rfl⟩ := ih valid.2
      by_cases slash : c = '/'
      · refine ⟨[], String.ofList name :: tokens, ?_⟩
        rw [pointer_cons_toList, String.toList_ofList, slash]
        rfl
      · exact ⟨c :: name, tokens, by rw [escaped_cons valid.1 slash]; rfl⟩
    · exact zero
    · exact one

/-- Pointers are the texts of tokens. -/
theorem isPointer_iff {path : String} : IsPointer path ↔ ∃ tokens, path = pointer tokens := by
  constructor
  · rintro ⟨rfl | slash, valid⟩
    · exact ⟨[], rfl⟩
    · obtain ⟨rest, chars⟩ := List.head?_eq_some_iff.mp slash
      rw [chars, escapesValid_cons (by decide)] at valid
      obtain ⟨name, tokens, rfl⟩ := escaped_of_escapesValid valid
      refine ⟨String.ofList name :: tokens, String.toList_injective ?_⟩
      rw [chars, pointer_cons_toList, String.toList_ofList]
  · rintro ⟨tokens, rfl⟩
    exact ⟨pointer_opens tokens, escapesValid_pointer tokens⟩

/-! ## Members of the documents -/

/-- A flow's document is an object with its status. -/
theorem flowDocument_obj (item : Option ItemPart) (flow : FlowResult) : ∃ members,
    flowDocument item flow.members = .obj members ∧
      members.lookup "status" = some (.str flow.status.value) ∧
      members.lookup "steps" = some (.obj (stepDocuments flow.steps)) := by
  obtain ⟨outcome, result, steps, runs⟩ := flow
  cases item with
  | none =>
    refine ⟨_, rfl, rfl, ?_⟩
    rw [FlowResult.members, List.append_assoc, lookup_append_of_none (outcome_lookup _ _ (by decide))]
    rfl
  | some item =>
    refine ⟨_, rfl, rfl, ?_⟩
    rw [FlowResult.members, List.append_assoc, List.append_assoc, List.append_assoc,
      lookup_append_of_none (by rfl), lookup_append_of_none (outcome_lookup _ _ (by decide))]
    rfl

/-- A step's document is found by its name. -/
theorem stepDocuments_lookup_eq (steps : List (String × StepResult)) (name : String) :
    (stepDocuments steps).lookup name = (steps.lookup name).map StepResult.document := by
  induction steps with
  | nil => rfl
  | cons entry rest ih =>
    obtain ⟨stepName, step⟩ := entry
    rw [stepDocuments, List.lookup_cons, List.lookup_cons, ih]
    cases name == stepName <;> rfl

/-- A step's document is an object with its status. -/
theorem stepDocument_obj (step : StepResult) : ∃ members, step.document = .obj members ∧
    members.lookup "status" = some (.str step.status.value) := by
  cases step with
  | operation => exact ⟨_, rfl, rfl⟩
  | stopped => exact ⟨_, rfl, rfl⟩
  | collection outcome field items =>
    cases field with
    | result => exact ⟨_, rfl, rfl⟩
    | partialResult => exact ⟨_, rfl, rfl⟩

/-- A bare outcome has no result. -/
theorem bare_lookup (outcome : Outcome) : (outcome.members none).lookup "result" = none := by
  have bare : outcome.members none = presentMembers [("status", some (.str outcome.status.value)),
      ("usage", outcome.usage.map UsageDocument.value),
      ("elapsed_seconds", outcome.elapsedSeconds.map .float),
      ("error", outcome.error.map ServiceError.asJson)] := rfl
  rw [bare]
  apply lookup_presentMembers_none
  simp

/-- Only marked collections say so. -/
theorem stepDocument_kind {step : StepResult} {members : Object}
    (document : step.document = .obj members)
    (marked : text (members.lookup "kind") = some "flow_collection") :
    ∀ outcome result selection, step ≠ .operation outcome result selection := by
  rintro outcome result selection rfl
  cases document
  rw [lookup_append_of_none (outcome_lookup _ _ (by decide)),
    lookup_presentMembers_none (by simp)] at marked
  cases marked

/-- The ledger of a marked collection is under its own field only. -/
theorem stepDocument_ledger {step : StepResult} {members : Object}
    (document : step.document = .obj members)
    (marked : text (members.lookup "kind") = some "flow_collection") {field : String}
    (named : field ∈ ["result", "partial_result"]) : member (members.lookup field) "items" =
      (step.ledger.filter fun ledger => ledger.1.key = field).map fun ledger =>
        .arr (itemDocuments ledger.2) := by
  have fields : field = "result" ∨ field = "partial_result" := by simpa using named
  have absent (outcome : Outcome) (others : Object) (fresh : others.lookup field = none) :
      (outcome.members none ++ others).lookup field = none := by
    rcases fields with rfl | rfl
    · rw [lookup_append_of_none (bare_lookup outcome), fresh]
    · rw [lookup_append_of_none (outcome_lookup _ _ (by decide)), fresh]
  cases step with
  | operation => exact absurd rfl (stepDocument_kind document marked _ _ _)
  | stopped outcome =>
    cases document
    rw [absent outcome _ (by rcases fields with rfl | rfl <;> rfl)]
    rfl
  | collection outcome own items =>
    cases own with
    | result =>
      cases document
      rcases fields with rfl | rfl
      · rfl
      · rw [lookup_append_of_none (outcome_lookup _ _ (by decide))]
        rfl
    | partialResult =>
      cases document
      rcases fields with rfl | rfl
      · rw [lookup_append_of_none (bare_lookup outcome)]
        rfl
      · rw [lookup_append_of_none (outcome_lookup _ _ (by decide))]
        rfl

/-- A step with a ledger has it in its document. -/
theorem marked_of_ledger {step : StepResult} {members : Object}
    (document : step.document = .obj members)
    {ledger : LedgerField × List ItemResult} (held : step.ledger = some ledger) :
    text (members.lookup "kind") = some "flow_collection" := by
  cases step with
  | operation => cases held
  | stopped => cases held
  | collection outcome own items =>
    cases own with
    | result =>
      cases document
      rw [lookup_append_of_none (outcome_lookup _ _ (by decide))]
      rfl
    | partialResult =>
      cases document
      rw [lookup_append_of_none (outcome_lookup _ _ (by decide))]
      rfl

/-- An index below the length of a ledger has at most four digits. -/
theorem item_index {items : List ItemResult} (bounded : items.length ≤ MAX_LEDGER_ITEMS) {i : ℕ}
    {item : ItemResult} (here : items[i]? = some item) :
    isIndex (toString i).toList = true ∧ (toString i).length ≤ 4 ∧
    digitsValue (toString i).toList = i := by
  have inside : i < items.length := (List.getElem?_eq_some_iff.mp here).1
  have short : i < 10 ^ 4 := lt_of_lt_of_le inside (bounded.trans (by decide))
  rw [Nat.toString_eq_ofList_toDigits, String.toList_ofList, String.length_ofList]
  exact ⟨isIndex_toDigits i, (Nat.length_toDigits_le_iff (by decide) (by decide)).mpr short,
    digitsValue_toDigits i⟩

/-- What the tokens after a step select: an item of its ledger, by the field, the word and the index
that lead to it. -/
theorem ledgerItem_eq_some {step : StepResult} {members : Object}
    (document : step.document = .obj members)
    (bounded : ∀ ledger ∈ step.ledger, ledger.2.length ≤ MAX_LEDGER_ITEMS)
    {field word index : String} {found : Json} :
    ledgerItem members field word index = some found ↔
      ∃ (own : LedgerField) (items : List ItemResult) (i : ℕ) (item : ItemResult),
        step.ledger = some (own, items) ∧ items[i]? = some item ∧ field = own.key ∧ word = "items" ∧
          index = toString i ∧ found = flowDocument (some item.item) item.record.members := by
  constructor
  · intro selected
    unfold ledgerItem at selected
    split at selected
    · rename_i conditions
      obtain ⟨marked, named, rfl⟩ := conditions
      rw [stepDocument_ledger document marked named] at selected
      cases held : step.ledger with
      | none =>
        rw [held] at selected
        cases selected
      | some ledger =>
        obtain ⟨own, items⟩ := ledger
        rw [held] at selected
        by_cases same : own.key = field
        · rw [Option.filter_some, if_pos (decide_eq_true same), Option.map_some] at selected
          dsimp only at selected
          split at selected
          · rename_i valid
            rw [itemDocuments_eq, List.getElem?_map, Option.map_eq_some_iff] at selected
            obtain ⟨item, here, rfl⟩ := selected
            refine ⟨own, items, _, item, rfl, here, same.symm, rfl, ?_, rfl⟩
            rw [Nat.toString_eq_ofList_toDigits, toDigits_index valid.1, String.ofList_toList]
          · cases selected
        · rw [Option.filter_some, if_neg (by simpa using same)] at selected
          cases selected
    · cases selected
  · rintro ⟨own, items, i, item, held, here, rfl, rfl, rfl, rfl⟩
    have marked := marked_of_ledger document held
    have named : own.key ∈ ["result", "partial_result"] := by cases own <;> decide
    obtain ⟨index, short, value⟩ := item_index (bounded _ held) here
    rw [ledgerItem, if_pos ⟨marked, named, rfl⟩, stepDocument_ledger document marked named, held,
      Option.filter_some, if_pos (decide_eq_true rfl), Option.map_some]
    dsimp only
    rw [if_pos ⟨index, short⟩, value, itemDocuments_eq, List.getElem?_map, here]
    rfl

/-! ## The innermost record -/

/-- A record inside another one, under the most of the tokens. -/
structure Innermost (root : Record) (tokens own : List String) (target : Record) : Prop where
  below : Below root own target
  reaches : own <+: tokens
  longest : ∀ other found, Below root other found → other <+: tokens → other.length ≤ own.length

/-- A record with nothing below it on the path is innermost. -/
theorem Innermost.self {root : Record} {tokens : List String}
    (bare : ∀ other found, Below root other found → other <+: tokens → other = []) :
    Innermost root tokens [] root where
  below := .self root
  reaches := List.nil_prefix
  longest other found below within := by rw [bare other found below within]

/-- What is innermost below a step is so below its flow. -/
theorem Innermost.step {name stepName : String} {item : Option ItemPart} {flow : FlowResult}
    {step : StepResult} {tokens own : List String} {target : Record}
    (names : (Dict.keys flow.steps).Nodup) (mem : (stepName, step) ∈ flow.steps)
    (inner : Innermost (.step name stepName step) tokens own target) :
    Innermost (.flow name item flow) ("steps" :: stepName :: tokens) ("steps" :: stepName :: own)
      target where
  below := .step mem inner.below
  reaches := List.cons_prefix_cons.mpr ⟨rfl, List.cons_prefix_cons.mpr ⟨rfl, inner.reaches⟩⟩
  longest other found below within := by
    cases below with
    | self => exact Nat.zero_le _
    | step among below =>
      obtain ⟨-, named⟩ := List.cons_prefix_cons.mp within
      obtain ⟨rfl, deeper⟩ := List.cons_prefix_cons.mp named
      obtain rfl := Option.some.inj
        ((Dict.lookup_of_mem names mem).symm.trans (Dict.lookup_of_mem names among))
      simpa using inner.longest _ _ below deeper

/-- What is innermost below an item is so below its step. -/
theorem Innermost.item {flow name : String} {step : StepResult} {field : LedgerField}
    {items : List ItemResult} {index : ℕ} {item : ItemResult}
    {tokens own : List String} {target : Record}
    (ledger : step.ledger = some (field, items)) (here : items[index]? = some item)
    (inner : Innermost (.flow item.item.flow (some item.item) item.record) tokens own target) :
    Innermost (.step flow name step) (field.key :: "items" :: toString index :: tokens)
      (field.key :: "items" :: toString index :: own) target where
  below := .item ledger here inner.below
  reaches := by
    obtain ⟨rest, rfl⟩ := inner.reaches
    exact ⟨rest, rfl⟩
  longest other found below within := by
    cases below with
    | self => exact Nat.zero_le _
    | item held there below =>
      obtain ⟨rfl, rfl⟩ := Prod.mk.inj (Option.some.inj (ledger.symm.trans held))
      obtain ⟨-, listed⟩ := List.cons_prefix_cons.mp within
      obtain ⟨-, indexed⟩ := List.cons_prefix_cons.mp listed
      obtain ⟨same, deeper⟩ := List.cons_prefix_cons.mp indexed
      obtain rfl := toString_injective same
      obtain rfl := Option.some.inj (here.symm.trans there)
      simpa using inner.longest _ _ below deeper

/-- No ledger below a record is longer than its contract allows. -/
def Record.Ledgers (root : Record) : Prop :=
  ∀ tokens flow name step, Below root tokens (.step flow name step) →
    ∀ ledger ∈ step.ledger, ledger.2.length ≤ MAX_LEDGER_ITEMS

/-- Where no step is named, the flow owns the tokens. -/
theorem Innermost.flow_self {name : String} {item : Option ItemPart} {flow : FlowResult}
    {tokens : List String}
    (bare : ∀ stepName step rest, (stepName, step) ∈ flow.steps →
      tokens ≠ "steps" :: stepName :: rest) :
    Innermost (.flow name item flow) tokens [] (.flow name item flow) := by
  refine .self fun other found below within => ?_
  cases below with
  | self => rfl
  | step mem below =>
    obtain ⟨rest, rfl⟩ := within
    exact absurd rfl (bare _ _ _ mem)

/-- Where no item is selected, the step owns the tokens. -/
theorem Innermost.step_self {flow name : String} {step : StepResult} {tokens : List String}
    (bare : ∀ field items index item rest, step.ledger = some (field, items) →
      items[index]? = some item →
      tokens ≠ LedgerField.key field :: "items" :: toString (index : ℕ) :: rest) :
    Innermost (.step flow name step) tokens [] (.step flow name step) := by
  refine .self fun other found below within => ?_
  cases below with
  | self => rfl
  | item ledger here below =>
    obtain ⟨rest, rfl⟩ := within
    exact absurd rfl (bare _ _ _ _ _ ledger here)

/-- Where nothing is found the last status counts. -/
theorem flowStatus_none (status : Option Json) (parts : List String) :
    flowStatus status none parts = status := by
  rw [flowStatus.eq_def]

/-- The walk down the document of a flow record ends at the innermost record. -/
theorem flowStatus_document {name : String} {item : Option ItemPart} {flow : FlowResult}
    (distinct : flow.Distinct) (ledgers : (Record.flow name item flow).Ledgers) (status : Option Json)
    (parts : List String) : ∃ own target, Innermost (.flow name item flow) parts own target ∧
      flowStatus status (some (flowDocument item flow.members)) parts =
        some (.str target.status.value) := by
  induction size : parts.length using Nat.strongRecOn generalizing name item flow status parts with
  | _ size ih =>
  obtain ⟨members, document, flowOwn, steps⟩ := flowDocument_obj item flow
  rw [document]
  match parts with
  | [] => exact ⟨[], _, .flow_self nofun, flowOwn⟩
  | [word] => exact ⟨[], _, .flow_self nofun, flowOwn⟩
  | word :: stepName :: rest =>
    rw [flowStatus]
    by_cases stepped : word = "steps"
    swap
    · rw [if_neg stepped]
      exact ⟨[], _, .flow_self fun _ _ _ _ same => stepped (List.cons.inj same).1, flowOwn⟩
    subst stepped
    rw [if_pos rfl, steps, member, stepDocuments_lookup_eq]
    cases found : flow.steps.lookup stepName with
    | none =>
      refine ⟨[], _, .flow_self fun other step others mem same => ?_, flowOwn⟩
      obtain rfl := (List.cons.inj (List.cons.inj same).2).1
      rw [Dict.lookup_of_mem distinct.names mem] at found
      cases found
    | some step =>
      have mem := Dict.mem_of_lookup found
      obtain ⟨stepMembers, stepDocument, stepOwn⟩ := stepDocument_obj step
      rw [Option.map_some, stepDocument]
      have bounded : ∀ ledger ∈ step.ledger, ledger.2.length ≤ MAX_LEDGER_ITEMS :=
        ledgers _ _ _ _ (.step mem (.self _))
      -- the step owns the tokens unless they select an item
      have stays (bare : ∀ field items index item others, step.ledger = some (field, items) →
          items[index]? = some item →
            rest ≠ LedgerField.key field :: "items" :: toString (index : ℕ) :: others) :
          Innermost (.flow name item flow) ("steps" :: stepName :: rest) ["steps", stepName]
            (.step name stepName step) :=
        .step distinct.names mem (.step_self bare)
      match rest with
      | [] => exact ⟨_, _, stays nofun, stepOwn⟩
      | [field] => exact ⟨_, _, stays nofun, stepOwn⟩
      | [field, items] => exact ⟨_, _, stays nofun, stepOwn⟩
      | field :: items :: index :: others =>
        cases selected : ledgerItem stepMembers field items index with
        | none =>
          refine ⟨_, _, stays fun own held i item rest ledger here same => ?_, ?_⟩
          · obtain ⟨named, same⟩ := List.cons.inj same
            obtain ⟨listed, same⟩ := List.cons.inj same
            rw [(ledgerItem_eq_some stepDocument bounded).mpr
              ⟨own, held, i, item, ledger, here, named, listed,
                (List.cons.inj same).1, rfl⟩] at selected
            cases selected
          · dsimp only
            rw [selected, flowStatus_none]
            exact stepOwn
        | some found =>
          obtain ⟨own, held, i, item, ledger, here, rfl, rfl, rfl, rfl⟩ :=
            (ledgerItem_eq_some stepDocument bounded).mp selected
          have inner := (distinct.step mem).item ledger (List.mem_of_getElem? here)
          obtain ⟨tokens, target, innermost, walked⟩ := ih others.length (by
            rw [← size]
            simp only [List.length_cons]
            omega) inner (fun tokens flow name step below =>
              ledgers _ _ _ _ (.step mem (.item ledger here below))) (stepMembers.lookup
                "status") others rfl
          refine ⟨_, target, .step distinct.names mem (.item ledger here innermost), ?_⟩
          dsimp only
          rw [selected]
          exact walked

/-! ## The two walks -/

/-- One record is at one path. -/
theorem Final.unique {result : ExecutionResult} {tokens : List String} {record other : Record}
    (final : Final result tokens record) (found : Final result tokens other) : record = other :=
  congrArg Prod.snd (List.inj_on_of_nodup_map (nodup_visited result)
    (mem_visited.mpr ⟨tokens, record, rfl, final⟩) (mem_visited.mpr ⟨tokens, other, rfl, found⟩) rfl)

/-- The records of the index are the final ones. -/
theorem final_of_observation {result : ExecutionResult} {observation : Observation}
    (mem : observation ∈ (executionRecords result).1.map Observation.flow ++
      (executionRecords result).2.map Observation.step) : ∃ tokens record,
      observation.path = pointer tokens ∧ Final result tokens record ∧
        observation.status = record.status := by
  rw [List.mem_append, List.mem_map, List.mem_map] at mem
  rcases mem with ⟨flow, mem, rfl⟩ | ⟨step, mem, rfl⟩
  · obtain ⟨tokens, path, final⟩ := mem_flowObservations.mp mem
    exact ⟨tokens, _, path, final, rfl⟩
  · obtain ⟨tokens, path, final⟩ := mem_stepObservations.mp mem
    exact ⟨tokens, _, path, final, rfl⟩

/-- Every final record is observed at its path. -/
theorem observation_of_final {result : ExecutionResult} {tokens : List String} {record : Record}
    (final : Final result tokens record) :
    ∃ observation ∈ (executionRecords result).1.map Observation.flow ++
        (executionRecords result).2.map Observation.step, observation.path = pointer tokens := by
  cases record with
  | flow name item flow =>
    exact ⟨.flow ⟨name, pointer tokens, flow, item⟩, List.mem_append_left _ (List.mem_map_of_mem
      (mem_flowObservations.mpr ⟨tokens, rfl, final⟩)), rfl⟩
  | step flow name step =>
    exact ⟨.step ⟨flow, name, pointer tokens, step⟩, List.mem_append_right _ (List.mem_map_of_mem
      (mem_stepObservations.mpr ⟨tokens, rfl, final⟩)), rfl⟩

/-- The final record under the most of the tokens. -/
structure Owner (result : ExecutionResult) (tokens own : List String) (record : Record) : Prop where
  final : Final result own record
  reaches : own <+: tokens
  longest : ∀ other found, Final result other found → other <+: tokens → other.length ≤ own.length

/-- The index finds the owner of a pointer. -/
theorem pathObservation_owner {result : ExecutionResult} {tokens own : List String} {record : Record}
    (owner : Owner result tokens own record) :
    (pathObservation (pointer tokens) (executionRecords result).1 (executionRecords result).2).map
      Observation.status = some record.status := by
  obtain ⟨first, mem, path⟩ := observation_of_final owner.final
  have matching : first ∈ ((executionRecords result).1.map Observation.flow ++
      (executionRecords result).2.map Observation.step).filter fun record =>
        under record.path (pointer tokens) := by
    refine List.mem_filter.mpr ⟨mem, ?_⟩
    rw [path]
    exact under_pointer.mpr owner.reaches
  cases found : pathObservation (pointer tokens) (executionRecords result).1
      (executionRecords result).2 with
  | none =>
    have empty := List.argmax_eq_none.mp found
    rw [empty] at matching
    cases matching
  | some observation =>
    have longer := List.le_of_mem_argmax matching found
    obtain ⟨among, within⟩ := List.mem_filter.mp (List.argmax_mem found)
    obtain ⟨other, target, otherPath, final, status⟩ := final_of_observation among
    rw [otherPath] at within longer
    have reaches := under_pointer.mp within
    obtain ⟨rest, rfl⟩ := List.prefix_of_prefix_length_le reaches owner.reaches
      (owner.longest _ _ final reaches)
    -- the shorter path is no shorter, so nothing is left
    rw [path, pointer_append, String.length_append] at longer
    have nothing : rest = [] := by
      cases rest with
      | nil => rfl
      | cons name rest =>
        rw [← String.length_toList, ← String.length_toList, pointer_cons_toList] at longer
        simp only [List.length_cons] at longer
        omega
    subst nothing
    rw [List.append_nil] at owner
    rw [Option.map_some, status, final.unique owner.final]

/-- A pointer without an owner has no record in the index. -/
theorem pathObservation_none {result : ExecutionResult} {tokens : List String}
    (bare : ∀ other found, Final result other found → ¬ other <+: tokens) :
    pathObservation (pointer tokens) (executionRecords result).1 (executionRecords result).2 =
    none := by
  refine List.argmax_eq_none.mpr (List.filter_eq_nil_iff.mpr fun observation mem within => ?_)
  obtain ⟨other, target, path, final, -⟩ := final_of_observation mem
  rw [path] at within
  exact bare other target final (under_pointer.mp within)

/-- The document has its flows. -/
theorem modelDump_flows (result : ExecutionResult) : ∃ members, result.modelDump = .obj members ∧
    members.lookup "flows" = some (.obj (flowDocuments result.flows)) :=
  ⟨_, rfl, rfl⟩

/-- A flow's document is found by its name. -/
theorem flowDocuments_lookup (flows : List (String × FlowResult)) (name : String) :
    (flowDocuments flows).lookup name = (flows.lookup name).map fun flow => .obj flow.members := by
  induction flows with
  | nil => rfl
  | cons entry rest ih =>
    obtain ⟨flowName, flow⟩ := entry
    have head : flowDocuments ((flowName, flow) :: rest) =
        (flowName, .obj flow.members) :: flowDocuments rest := rfl
    rw [head, List.lookup_cons, List.lookup_cons, ih]
    cases name == flowName <;> rfl

/-- The tokens of a pointer are its decoded parts. -/
theorem decoded_pointer (tokens : List String) : ((pointer tokens).toList.splitOn '/').tail.map
    (fun part => String.ofList (unescapePart part)) = tokens := by
  rw [splitOn_pointer, List.tail_cons, List.map_map]
  refine (List.map_congr_left fun name _ => ?_).trans (List.map_id tokens)
  rw [Function.comp_apply, unescape_escaped, String.ofList_toList, id]

/-- Without its first two tokens no pointer is in a record. -/
theorem Final.tokens {result : ExecutionResult} {tokens : List String} {record : Record}
    (final : Final result tokens record) : ∃ name flow rest, tokens = "flows" :: name :: rest ∧
      (name, flow) ∈ result.flows ∧ Below (.flow name none flow) rest record := by
  obtain ⟨mem, below⟩ := final
  exact ⟨_, _, _, rfl, mem, below⟩

/-- The walk down the document finds the owner of a pointer, or there is none. -/
theorem documentPathStatus_pointer (result : ValidatedResult) (tokens : List String) :
    (∃ own record, Owner result.toExecutionResult tokens own record ∧
      documentPathStatus (pointer tokens) result.modelDump = some record.status.value) ∨
    (∀ other found, Final result.toExecutionResult other found → ¬ other <+: tokens) ∧
      documentPathStatus (pointer tokens) result.modelDump = none := by
  obtain ⟨members, document, roots⟩ := modelDump_flows result.toExecutionResult
  unfold documentPathStatus
  rw [document, decoded_pointer]
  match tokens with
  -- every record lies under "flows" and a name, so two tokens are needed
  | [] => exact .inr ⟨fun other found final within => by
      obtain ⟨name, flow, rest, rfl, -⟩ := final.tokens
      exact absurd within (by simp), rfl⟩
  | [word] => exact .inr ⟨fun other found final within => by
      obtain ⟨name, flow, rest, rfl, -⟩ := final.tokens
      exact absurd within (by simp), rfl⟩
  | word :: name :: rest =>
    dsimp only
    by_cases root : word = "flows"
    swap
    · refine .inr ⟨fun other found final within => ?_, if_neg root⟩
      obtain ⟨_, flow, others, rfl, -⟩ := final.tokens
      exact root (List.cons_prefix_cons.mp within).1.symm
    subst root
    rw [if_pos rfl, roots, member, flowDocuments_lookup]
    cases found : result.flows.lookup name with
    | none =>
      refine .inr ⟨fun other target final within => ?_, ?_⟩
      · obtain ⟨flowName, flow, others, rfl, mem, -⟩ := final.tokens
        obtain ⟨-, named⟩ := List.cons_prefix_cons.mp within
        obtain ⟨rfl, -⟩ := List.cons_prefix_cons.mp named
        rw [Dict.lookup_of_mem result.nodup mem] at found
        cases found
      · rw [Option.map_none, flowStatus_none]
        rfl
    -- the walk inside the flow finds the longest record on the path
    | some flow =>
      have mem := Dict.mem_of_lookup found
      obtain ⟨own, target, inner, walked⟩ :=
          @flowStatus_document name none flow (result.distinct _ mem)
        (fun tokens flow name step below => result.ledgers _ _ _ _ (.intro mem below)) none rest
      refine .inl ⟨"flows" :: name :: own, target, ⟨.intro mem inner.below, ?_, ?_⟩, ?_⟩
      · exact List.cons_prefix_cons.mpr ⟨rfl, List.cons_prefix_cons.mpr ⟨rfl, inner.reaches⟩⟩
      · intro other target final within
        obtain ⟨flowName, other, others, rfl, among, below⟩ := final.tokens
        obtain ⟨-, named⟩ := List.cons_prefix_cons.mp within
        obtain ⟨rfl, deeper⟩ := List.cons_prefix_cons.mp named
        obtain rfl := Option.some.inj
          ((Dict.lookup_of_mem result.nodup mem).symm.trans (Dict.lookup_of_mem result.nodup among))
        simpa using inner.longest _ _ below deeper
      · have plain : Value.obj flow.members = flowDocument none flow.members := rfl
        rw [Option.map_some, plain, walked]
        rfl

/-- For every pointer the document has the status of the record that the index finds, and no status
exactly when the index finds none. -/
theorem documentPathStatus_eq_pathObservation (result : ValidatedResult) {document : Json}
    {flows : List FlowObservation} {steps : List StepObservation}
    (accepted : snapshotExecution result.toExecutionResult = .ok (document, flows, steps))
    {path : String} (valid : IsPointer path) : documentPathStatus path document =
      (pathObservation path flows steps).map fun observation => observation.status.value := by
  obtain ⟨-, -, -, -, -, rfl, rfl, rfl⟩ := snapshotExecution_eq_ok.mp accepted
  obtain ⟨tokens, rfl⟩ := isPointer_iff.mp valid
  rcases documentPathStatus_pointer result tokens with ⟨own, record, owner, walked⟩ | ⟨bare, walked⟩
  · rw [walked]
    have found := congrArg (Option.map Status.value) (pathObservation_owner owner)
    rw [Option.map_map] at found
    exact found.symm
  · rw [walked, pathObservation_none bare]
    rfl

/-- A collection of one item whose own step returns a value that looks like a record. -/
def ledgerResult : ExecutionResult where
  id := "run"
  workflow := "example"
  revision := "1"
  status := .completed
  usage := noUsage
  payload := .obj []
  metadata := []
  flows := [("collect", .mk measured none [("gather", .collection measured .result [.mk
    { id := "a", flow := "child" } (.mk { status := .needsReview } none [("ask", .operation measured
      (some (.obj [("steps", .obj [("status", .str "failed")])])) none)] { attemptCount := 1 })])]
    { attemptCount := 1 })]
  nodup := List.nodup_singleton _
  distinct := by
    rintro entry mem
    obtain rfl := List.mem_singleton.mp mem
    exact ⟨List.nodup_singleton _, ⟨⟨List.nodup_singleton _, trivial, trivial⟩, trivial⟩, trivial⟩

/-- The result, validated. -/
def ledgerValidated : ValidatedResult where
  toExecutionResult := ledgerResult
  ledgers := by
    have short : ∀ entry ∈ visited ledgerResult, ∀ ledger ∈ entry.2.ledger,
        ledger.2.length ≤ MAX_LEDGER_ITEMS := by
      decide
    exact fun tokens flow name step final => short _ (mem_visited.mpr ⟨tokens, _, rfl, final⟩)

/-- The statuses that its paths have. -/
theorem ledger_statuses : ∃ document flows steps,
    snapshotExecution ledgerResult = .ok (document, flows, steps) ∧
      IsPointer "/flows/collect/steps/gather/result/items/0/steps/ask/result/steps" ∧
      documentPathStatus "/flows/collect/steps/gather/result/items/0/steps/ask/result/steps"
      document =
        (pathObservation "/flows/collect/steps/gather/result/items/0/steps/ask/result/steps" flows
          steps).map fun observation => observation.status.value :=
  have accepted : snapshotExecution ledgerResult = .ok (ledgerResult.modelDump,
      (executionRecords ledgerResult).1, (executionRecords ledgerResult).2) := by
    rfl
  have valid : IsPointer "/flows/collect/steps/gather/result/items/0/steps/ask/result/steps" :=
    ⟨.inr rfl, rfl⟩
  ⟨_, _, _, accepted, valid, documentPathStatus_eq_pathObservation ledgerValidated accepted valid⟩

end Foliqant.Evaluation
