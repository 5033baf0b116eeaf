import Foliqant.Common.Fallible
import Foliqant.Core.RepeatProtocol
import Foliqant.Evaluation.RecordsSpec

/-!
# When a result has a snapshot

A snapshot allows five levels for each nested collection. The containers of attempts and of retry flows,
and the objects of output projections, have no allowance of their own.
-/

namespace Foliqant.Evaluation

open Foliqant.Core JsonText

/-- Every flow and step record of the final runs is observed exactly once, under a pointer that resolves
to it in the document. -/
structure Indexes (result : ExecutionResult) (document : Json) (flows : List FlowObservation)
    (steps : List StepObservation) : Prop where
  finds_flows : ∀ observation, observation ∈ flows ↔ ∃ tokens, observation.path = pointer tokens ∧
    Final result tokens (.flow observation.name observation.item observation.record)
  finds_steps : ∀ observation, observation ∈ steps ↔ ∃ tokens, observation.path = pointer tokens ∧
    Final result tokens (.step observation.flow observation.name observation.record)
  flows_once : (flows.map FlowObservation.path).Nodup
  steps_once : (steps.map StepObservation.path).Nodup
  flows_resolve : ∀ observation ∈ flows, lookupParts document (pointerParts observation.path) =
    some (flowDocument observation.item observation.record.members)
  steps_resolve : ∀ observation ∈ steps, lookupParts document (pointerParts observation.path) =
    some observation.record.document

/-- The snapshot succeeds with the document of the result and an index of its final records. -/
def Snapshots (result : ExecutionResult) : Prop :=
  ∃ flows steps, snapshotExecution result = .ok (result.modelDump, flows, steps) ∧
    Indexes result result.modelDump flows steps

/-- No value nests deeper than the allowance for its place. -/
structure ExecutionResult.Fits (result : ExecutionResult) : Prop where
  nesting : result.nesting ≤ MAX_COLLECTION_DEPTH
  payload : depth result.payload ≤ MAX_JSON_DEPTH + 5 * result.nesting
  metadata : depth (.obj result.metadata) + 1 ≤ MAX_JSON_DEPTH + 5 + 5 * result.nesting
  projections : ∀ tokens name item flow, Final result tokens (.flow name item flow) →
    ∀ value ∈ flow.result, depth value ≤ MAX_JSON_DEPTH + 5 * flow.nesting
  operations : ∀ tokens flow name step, Final result tokens (.step flow name step) →
    ∀ value ∈ step.operationResult, depth value ≤ MAX_JSON_DEPTH
  attempts : ∀ tokens name item flow, Final result tokens (.flow name item flow) →
    ∀ attempt ∈ flow.attempts,
      depth attempt + (tokens.length + 2) ≤ MAX_JSON_DEPTH + 5 + 5 * result.nesting
  retries : ∀ tokens name item flow, Final result tokens (.flow name (some item) flow) →
    ∀ value ∈ item.retry,
      depth value + (tokens.length + 1) ≤ MAX_JSON_DEPTH + 5 + 5 * result.nesting

/-! ## The index -/

/-- Observed flows keep the order of the paths. -/
theorem flowObservation_paths (entries : List (String × Record)) :
    ((entries.filterMap flowObservation).map FlowObservation.path).Sublist
    (entries.map Prod.fst) := by
  induction entries with
  | nil => exact List.Sublist.slnil
  | cons entry rest ih =>
    obtain ⟨path, record⟩ := entry
    cases record with
    | flow name item record => exact ih.cons_cons path
    | step flow name record => exact ih.cons path

/-- Observed steps keep the order of the paths. -/
theorem stepObservation_paths (entries : List (String × Record)) :
    ((entries.filterMap stepObservation).map StepObservation.path).Sublist
    (entries.map Prod.fst) := by
  induction entries with
  | nil => exact List.Sublist.slnil
  | cons entry rest ih =>
    obtain ⟨path, record⟩ := entry
    cases record with
    | flow name item record => exact ih.cons path
    | step flow name record => exact ih.cons_cons path

/-- The observed flows are the final ones, each at its pointer. -/
theorem mem_flowObservations {result : ExecutionResult} {observation : FlowObservation} :
    observation ∈ (executionRecords result).1 ↔ ∃ tokens, observation.path = pointer tokens ∧
      Final result tokens (.flow observation.name observation.item observation.record) := by
  refine List.mem_filterMap.trans ?_
  constructor
  · rintro ⟨entry, visits, observed⟩
    obtain ⟨tokens, record, rfl, final⟩ := mem_visited.mp visits
    cases record with
    | flow name item record =>
      obtain rfl := Option.some.inj observed
      exact ⟨tokens, rfl, final⟩
    | step flow name record => cases observed
  · rintro ⟨tokens, path, final⟩
    exact ⟨_, mem_visited.mpr ⟨tokens, _, rfl, final⟩, by rw [← path]; rfl⟩

/-- The observed steps are the final ones, each at its pointer. -/
theorem mem_stepObservations {result : ExecutionResult} {observation : StepObservation} :
    observation ∈ (executionRecords result).2 ↔ ∃ tokens, observation.path = pointer tokens ∧
      Final result tokens (.step observation.flow observation.name observation.record) := by
  refine List.mem_filterMap.trans ?_
  constructor
  · rintro ⟨entry, visits, observed⟩
    obtain ⟨tokens, record, rfl, final⟩ := mem_visited.mp visits
    cases record with
    | flow name item record => cases observed
    | step flow name record =>
      obtain rfl := Option.some.inj observed
      exact ⟨tokens, rfl, final⟩
  · rintro ⟨tokens, path, final⟩
    exact ⟨_, mem_visited.mpr ⟨tokens, _, rfl, final⟩, by rw [← path]; rfl⟩

/-- A final record is found under its tokens. -/
theorem Final.lookup {result : ExecutionResult} {tokens : List String} {record : Record}
    (final : Final result tokens record) :
    lookupParts result.modelDump (pointerParts (pointer tokens)) = some record.document := by
  obtain ⟨mem, below⟩ := final
  rename_i name flow rest
  rw [pointerParts_pointer _ (List.cons_ne_nil _ _)]
  have roots : child result.modelDump (escaped "flows".toList) =
      some (.obj (flowDocuments result.flows)) :=
    child_member _ _
  have keys : Dict.keys (flowDocuments result.flows) = Dict.keys result.flows := by
    rw [flowDocuments, Dict.keys, List.map_map]
    rfl
  have root : child (.obj (flowDocuments result.flows)) (escaped name.toList) =
      some (Record.flow name none flow).document := by
    rw [child_member]
    refine Dict.lookup_of_mem (keys ▸ result.nodup) ?_
    exact List.mem_map_of_mem mem
  simp only [List.map_cons, lookupParts]
  rw [roots, Option.bind_some, root, Option.bind_some]
  exact below.lookup (result.distinct _ mem)

/-- The records are an index of the dumped result. -/
theorem executionRecords_indexes (result : ExecutionResult) :
    Indexes result result.modelDump (executionRecords result).1 (executionRecords result).2 where
  finds_flows _ := mem_flowObservations
  finds_steps _ := mem_stepObservations
  flows_once := (flowObservation_paths _).nodup (nodup_visited result)
  steps_once := (stepObservation_paths _).nodup (nodup_visited result)
  flows_resolve observation mem := by
    obtain ⟨tokens, path, final⟩ := mem_flowObservations.mp mem
    rw [path]
    exact final.lookup
  steps_resolve observation mem := by
    obtain ⟨tokens, path, final⟩ := mem_stepObservations.mp mem
    rw [path]
    exact final.lookup

/-! ## The depths of the index -/

/-- What is below something below. -/
theorem Below.trans {record middle target : Record} {tokens others : List String}
    (below : Below record tokens middle) (further : Below middle others target) :
    Below record (tokens ++ others) target := by
  induction below with
  | self record => exact further
  | step mem below ih => exact .step mem (ih further)
  | item ledger here below ih => exact .item ledger here (ih further)

/-- What is below a final record is final. -/
theorem Final.trans {result : ExecutionResult} {tokens others : List String} {record target : Record}
    (final : Final result tokens record) (further : Below record others target) :
    Final result (tokens ++ others) target := by
  obtain ⟨mem, below⟩ := final
  exact .intro mem (below.trans further)

/-- A final record at a path lies below the final record whose path it extends. -/
theorem Final.split {result : ExecutionResult} {tokens rest : List String} {record target : Record}
    (final : Final result tokens record) (further : Final result (tokens ++ rest) target) :
    Below record rest target := by
  obtain ⟨mem, below⟩ := final
  rename_i name flow inner
  generalize whole : "flows" :: name :: inner ++ rest = path at further
  obtain ⟨mem', below'⟩ := further
  rename_i name' flow' inner'
  obtain ⟨rfl, rfl⟩ := List.cons.inj (List.cons.inj whole).2
  have same := (Dict.lookup_of_mem result.nodup mem).symm.trans (Dict.lookup_of_mem result.nodup mem')
  obtain rfl := Option.some.inj same
  exact below.split below' (result.distinct _ mem)

/-- A final record lies as deep as the collections around it make it, with room for those below. -/
theorem Final.levels {result : ExecutionResult} {tokens : List String} {record : Record}
    (final : Final result tokens record) :
    ∃ k, tokens.length = 2 + 5 * k + record.offset ∧ k + record.nesting ≤ result.nesting := by
  obtain ⟨mem, below⟩ := final
  obtain ⟨k, length, nests⟩ := below.levels
  have among := List.mem_map_of_mem (f := fun entry : String × FlowResult => entry.2.nesting) mem
  have bounded := greatest_le.mp (le_refl result.nesting) _ among
  refine ⟨k, ?_, nests.trans bounded⟩
  simp only [List.length_cons, Record.offset] at length ⊢
  omega

/-- The collections around a final flow record are counted by its path. -/
theorem Final.collections {result : ExecutionResult} {tokens : List String} {name : String}
    {item : Option ItemPart} {flow : FlowResult}
    (final : Final result tokens (.flow name item flow)) :
    tokens.length = 2 + 5 * collectionDepth (pointer tokens) ∧
      collectionDepth (pointer tokens) + flow.nesting ≤ result.nesting := by
  obtain ⟨k, length, nests⟩ := final.levels
  have counted : collectionDepth (pointer tokens) = k := by
    rw [collectionDepth, segments_pointer]
    simp only [Record.offset] at length
    omega
  rw [counted]
  exact ⟨length, nests⟩

/-- The depth of every flow record by its path. -/
def flowDepths (result : ExecutionResult) : List (String × ℕ) :=
  (executionRecords result).1.map fun flow => (flow.path, collectionDepth flow.path)

/-- Each flow has its depth once. -/
theorem ofList_flowDepths (result : ExecutionResult) :
    Dict.ofList (flowDepths result) = flowDepths result := by
  refine Dict.ofList_of_nodup ?_
  rw [flowDepths, Dict.keys, List.map_map]
  exact (executionRecords_indexes result).flows_once

/-- The greatest depth is how deep the result nests. -/
theorem greatest_flowDepths (result : ExecutionResult) :
    greatest ((flowDepths result).map Prod.snd) = result.nesting := by
  apply le_antisymm
  · refine greatest_le.mpr fun value mem => ?_
    obtain ⟨entry, listed, rfl⟩ := List.mem_map.mp mem
    obtain ⟨observation, observed, rfl⟩ := List.mem_map.mp listed
    obtain ⟨tokens, path, final⟩ := mem_flowObservations.mp observed
    dsimp only
    rw [path]
    exact Nat.le_of_add_right_le final.collections.2
  · refine greatest_le.mpr fun value mem => ?_
    obtain ⟨⟨name, flow⟩, among, rfl⟩ := List.mem_map.mp mem
    obtain ⟨tokens, other, part, record, below, length⟩ := flow.deepest name none
    have final : Final result _ (.flow other part record) := .intro among below
    have counted : collectionDepth (pointer ("flows" :: name :: tokens)) = flow.nesting := by
      have := final.collections.1
      simp only [List.length_cons] at this
      omega
    refine greatest_le.mp le_rfl _
      (List.mem_map.mpr ⟨(pointer ("flows" :: name :: tokens), flow.nesting), ?_, rfl⟩)
    refine List.mem_map.mpr ⟨⟨other, _, record, part⟩, mem_flowObservations.mpr ⟨_, rfl, final⟩, ?_⟩
    rw [counted]

/-- The depth below a flow record is what nests in it. -/
theorem childDepth_flowDepths {result : ExecutionResult} {tokens : List String} {name : String}
    {item : Option ItemPart} {flow : FlowResult}
    (final : Final result tokens (.flow name item flow)) :
    childDepth (flowDepths result) (pointer tokens) = flow.nesting := by
  have own : (flowDepths result).lookup (pointer tokens) =
      some (collectionDepth (pointer tokens)) := by
    apply Dict.lookup_of_mem
    · rw [flowDepths, Dict.keys, List.map_map]
      exact (executionRecords_indexes result).flows_once
    · exact List.mem_map.mpr ⟨⟨name, _, flow, item⟩, mem_flowObservations.mpr ⟨_, rfl, final⟩, rfl⟩
  have length := final.collections.1
  -- the deepest flow below: none lies deeper than the nesting says, and one lies as deep
  have deepest : greatest (((flowDepths result).filter fun entry =>
      under (pointer tokens) entry.1).map Prod.snd) =
        collectionDepth (pointer tokens) + flow.nesting := by
    apply greatest_eq
    · intro value mem
      obtain ⟨entry, listed, rfl⟩ := List.mem_map.mp mem
      obtain ⟨depths, within⟩ := List.mem_filter.mp listed
      obtain ⟨observation, observed, rfl⟩ := List.mem_map.mp depths
      obtain ⟨others, path, other⟩ := mem_flowObservations.mp observed
      dsimp only at within ⊢
      rw [path] at within ⊢
      obtain ⟨rest, rfl⟩ := under_pointer.mp within
      obtain ⟨k, levels, nests⟩ := (final.split other).levels
      have total := other.collections.1
      simp only [Record.offset, Record.nesting, List.length_append] at levels nests total
      omega
    · obtain ⟨rest, other, part, record, below, levels⟩ := flow.deepest name item
      have further := final.trans below
      have total := further.collections.1
      rw [List.length_append] at total
      have counted : collectionDepth (pointer (tokens ++ rest)) =
          collectionDepth (pointer tokens) + flow.nesting := by
        omega
      refine List.mem_map.mpr ⟨(pointer (tokens ++ rest), _), List.mem_filter.mpr ⟨?_, ?_⟩, counted⟩
      · exact List.mem_map.mpr
          ⟨⟨other, _, record, part⟩, mem_flowObservations.mpr ⟨_, rfl, further⟩, rfl⟩
      · exact under_pointer.mpr (List.prefix_append tokens rest)
  rw [childDepth, own, deepest, Option.getD_some, Nat.add_sub_cancel_left]

/-! ## The depth of the document -/

/-- What holds of each value. -/
theorem forall_mem_optional {α : Type} {f : α → Json} {found : Option α} {P : Json → Prop}
    (each : ∀ a, P (f a)) : ∀ value ∈ found.map f, P value := by
  intro value present
  obtain ⟨a, -, rfl⟩ := Option.map_eq_some_iff.mp present
  exact each a

/-- A route is flat. -/
theorem depth_route (kind : String) (index : Option ℕ) (routeCase : Option String) :
    depth (.obj (presentMembers [("kind", some (.str kind)),
      ("index", index.map fun index => .int index), ("case", routeCase.map .str)])) ≤ 1 := by
  apply depth_presentMembers_le
  simp only [List.forall_mem_cons, List.not_mem_nil, false_imp_iff, implies_true, and_true,
    Option.mem_some_iff, forall_eq']
  exact ⟨le_rfl, forall_mem_optional fun _ => le_rfl, forall_mem_optional fun _ => le_rfl⟩

/-- A transition nests at most twice. -/
theorem depth_transition (transition : TransitionRecord) :
    depth (transitionDocument transition) ≤ 2 := by
  apply depth_presentMembers_le
  simp only [List.forall_mem_cons, List.not_mem_nil, false_imp_iff, implies_true, and_true,
    Option.mem_some_iff, forall_eq']
  exact ⟨Nat.le_succ 1, Nat.le_succ 1, forall_mem_optional fun _ => Nat.le_succ 1,
    forall_mem_optional fun _ => Nat.le_succ 1, Nat.succ_le_succ (depth_route _ _ _)⟩

/-- A start nests at most twice. -/
theorem depth_start (start : StartRecord) : depth (startDocument start) ≤ 2 := by
  have route := depth_route (if start.routeIndex.isSome then "route" else "direct")
    start.routeIndex none
  have members : ∀ entry ∈ [("flow", Value.str start.flow), ("route", .obj (presentMembers [
      ("kind", some (.str (if start.routeIndex.isSome then "route" else "direct"))),
      ("index", start.routeIndex.map fun index => .int index)]))], depth entry.2 + (0 + 1) ≤ 2 := by
    simp only [List.forall_mem_cons, List.not_mem_nil, false_imp_iff, implies_true, and_true]
    exact ⟨Nat.le_succ 1, Nat.succ_le_succ route⟩
  exact (@depth_obj_le _ 2 0).mpr ⟨Nat.zero_le 2, members⟩

/-- What is said about the run nests at most three times. -/
theorem depth_execution (id workflow revision : String) (status : Status) (usage : UsageDocument)
    (error : Option Failure) :
    depth (executionDocument id workflow revision status usage.value error) ≤ 4 := by
  apply depth_presentMembers_le
  have low : 0 + 1 ≤ 4 := by decide
  simp only [List.forall_mem_cons, List.not_mem_nil, false_imp_iff, implies_true, and_true,
    Option.mem_some_iff, forall_eq']
  refine ⟨low, low, low, low, Nat.succ_le_succ usage.depth_le, forall_mem_optional fun failure => ?_⟩
  exact (Nat.succ_le_succ (depth_error failure)).trans (by decide)

/-- The metadata and the flow records decide how deep a document nests, given its payload. -/
theorem modelDump_room {result : ExecutionResult} {bound : ℕ} (room : 5 ≤ bound) :
    depth result.modelDump ≤ bound ↔ depth result.payload + 1 ≤ bound ∧
      depth (.obj result.metadata) + 1 ≤ bound ∧
      ∀ entry ∈ result.flows, depth (.obj entry.2.members) + 2 ≤ bound := by
  have flows : depth (.obj (flowDocuments result.flows)) + 1 ≤ bound ↔
      ∀ entry ∈ result.flows, depth (.obj entry.2.members) + 2 ≤ bound := by
    rw [depth_obj_le, flowDocuments, List.forall_mem_map, and_iff_right (by omega : 1 ≤ bound)]
  have transitions : depth (.arr (result.transitions.map transitionDocument)) + 1 ≤ bound := by
    rw [depth_arr_le, List.forall_mem_map]
    refine ⟨by omega, fun transition _ => ?_⟩
    have := depth_transition transition
    omega
  have execution := depth_execution result.id result.workflow result.revision
      result.status result.usage
    result.error
  have start : ∀ value ∈ result.start.map startDocument, depth value + 1 ≤ bound :=
    forall_mem_optional fun start => by
      have := depth_start start
      omega
  have whole := @depth_obj_le (presentMembers [("payload", some result.payload),
    ("metadata", some (.obj result.metadata)), ("flows", some (.obj (flowDocuments result.flows))),
    ("transitions", some (.arr (result.transitions.map transitionDocument))),
    ("execution", some (executionDocument result.id result.workflow result.revision result.status
      result.usage.value result.error)), ("start", result.start.map startDocument)]) bound 0
  rw [presentMembers_room, and_iff_right (Nat.zero_le bound)] at whole
  simp only [List.forall_mem_cons, List.not_mem_nil, false_imp_iff, implies_true, and_true,
    Option.mem_some_iff, forall_eq', Nat.zero_add, Nat.add_zero] at whole
  refine whole.trans ?_
  rw [flows]
  exact ⟨fun ⟨payload, metadata, inner, _⟩ => ⟨payload, metadata, inner⟩,
    fun ⟨payload, metadata, inner⟩ =>
      ⟨payload, metadata, inner, transitions, by omega, start⟩⟩

section Bound

variable {result : ExecutionResult}

/-- The records of the final runs lie within the document with room for their measurements. -/
theorem Final.room {tokens : List String} {record : Record} (final : Final result tokens record) :
    tokens.length + 4 ≤ MAX_JSON_DEPTH + 5 + 5 * result.nesting := by
  obtain ⟨k, length, nests⟩ := final.levels
  have offset : record.offset ≤ 2 := by cases record <;> simp [Record.offset]
  have : MAX_JSON_DEPTH = 64 := rfl
  omega

/-- The document fits when the metadata, the attempts and the retries do: the final results of flows and
operations that fit for themselves always leave room. -/
theorem modelDump_fits_iff (payload : depth result.payload ≤ MAX_JSON_DEPTH + 5 * result.nesting)
    (projections : ∀ tokens name item flow, Final result tokens (.flow name item flow) →
      ∀ value ∈ flow.result, depth value ≤ MAX_JSON_DEPTH + 5 * flow.nesting)
    (operations : ∀ tokens flow name step, Final result tokens (.step flow name step) →
      ∀ value ∈ step.operationResult, depth value ≤ MAX_JSON_DEPTH) :
    depth result.modelDump ≤ MAX_JSON_DEPTH + 5 + 5 * result.nesting ↔
      depth (.obj result.metadata) + 1 ≤ MAX_JSON_DEPTH + 5 + 5 * result.nesting ∧
      (∀ tokens name item flow, Final result tokens (.flow name item flow) →
        ∀ attempt ∈ flow.attempts,
          depth attempt + (tokens.length + 2) ≤ MAX_JSON_DEPTH + 5 + 5 * result.nesting) ∧
      ∀ tokens name item flow, Final result tokens (.flow name (some item) flow) →
        ∀ value ∈ item.retry,
          depth value + (tokens.length + 1) ≤ MAX_JSON_DEPTH + 5 + 5 * result.nesting := by
  have limit : MAX_JSON_DEPTH = 64 := rfl
  -- every record has room of its own, at the depth of its tokens
  have records : (∀ entry ∈ result.flows,
      depth (.obj entry.2.members) + 2 ≤ MAX_JSON_DEPTH + 5 + 5 * result.nesting) ↔
      ∀ tokens record, Final result tokens record →
        record.Room (MAX_JSON_DEPTH + 5 + 5 * result.nesting) tokens.length := by
    have each (name : String) (flow : FlowResult) (mem : (name, flow) ∈ result.flows) :
        depth (flowDocument none flow.members) + 2 ≤ MAX_JSON_DEPTH + 5 + 5 * result.nesting ↔
          ∀ tokens target, Below (.flow name none flow) tokens target →
            target.Room (MAX_JSON_DEPTH + 5 + 5 * result.nesting) (2 + tokens.length) := by
      refine flow_fits_iff fun tokens target below => ?_
      have room := (Final.intro mem below).room
      simp only [List.length_cons] at room
      omega
    have tokensLength (name : String) (tokens : List String) :
        ("flows" :: name :: tokens).length = 2 + tokens.length := Nat.add_comm tokens.length 2
    constructor
    · rintro fits _ record ⟨mem, below⟩
      rw [tokensLength]
      exact (each _ _ mem).mp (fits _ mem) _ _ below
    · intro inner entry mem
      refine (each entry.1 entry.2 mem).mpr fun tokens target below => ?_
      rw [← tokensLength entry.1]
      exact inner _ _ (.intro mem below)
  rw [modelDump_room (by omega), records, and_iff_right (by omega)]
  refine and_congr_right fun _ => ⟨fun inner => ⟨?_, ?_⟩, fun ⟨attempts, retries⟩ => ?_⟩
  · intro tokens name item flow final
    exact (inner _ _ final).2.1
  · intro tokens name item flow final
    exact (inner _ _ final).2.2 item rfl
  · intro tokens record final
    obtain ⟨k, length, nests⟩ := final.levels
    cases record with
    | flow name item flow =>
      refine ⟨fun value present => ?_, attempts _ _ _ _ final, ?_⟩
      -- a projection was frozen at the record's own nesting, which `k` relates to its tokens
      · have own := projections _ _ _ _ final value present
        simp only [Record.offset, Record.nesting] at length nests
        omega
      · rintro part rfl
        exact retries _ _ _ _ final
    | step flow name step =>
      intro value present
      have own := operations _ _ _ _ final value present
      simp only [Record.offset, Record.nesting] at length nests
      omega

end Bound

/-- A result is kept when it is not too deep. -/
theorem freezeResult_eq_ok {maxDepth : ℕ} {result : Option Json} :
    freezeResult maxDepth result = .ok () ↔ ∀ value ∈ result, depth value ≤ maxDepth := by
  cases result with
  | none => exact ⟨fun _ => nofun, fun _ => rfl⟩
  | some value =>
    rw [freezeResult, Except.bind_eq_ok]
    simp only [Option.mem_some_iff, forall_eq']
    constructor
    · rintro ⟨frozen, froze, -⟩
      exact (freezeJson_eq_ok.mp froze).1
    · exact fun fits => ⟨value, freezeJson_eq_ok.mpr ⟨fits, rfl⟩, rfl⟩

/-- What a snapshot checks, in terms of the depths of the index. -/
theorem snapshotExecution_eq_ok {result : ExecutionResult} {document : Json}
    {flows : List FlowObservation} {steps : List StepObservation} :
    snapshotExecution result = .ok (document, flows, steps) ↔
      result.nesting ≤ MAX_COLLECTION_DEPTH ∧
      depth result.payload ≤ MAX_JSON_DEPTH + 5 * result.nesting ∧
      (∀ flow ∈ (executionRecords result).1, ∀ value ∈ flow.record.result,
        depth value ≤ MAX_JSON_DEPTH + 5 * childDepth (flowDepths result) flow.path) ∧
      (∀ step ∈ (executionRecords result).2, ∀ value ∈ step.record.operationResult,
        depth value ≤ MAX_JSON_DEPTH) ∧
      depth result.modelDump ≤
        min MAX_EXECUTION_JSON_DEPTH (MAX_JSON_DEPTH + 5 + 5 * result.nesting) ∧
      result.modelDump = document ∧ (executionRecords result).1 = flows ∧
      (executionRecords result).2 = steps := by
  have depths : Dict.ofList ((executionRecords result).1.map fun flow =>
      (flow.path, collectionDepth flow.path)) = flowDepths result := ofList_flowDepths result
  unfold snapshotExecution
  dsimp only
  rw [depths, greatest_flowDepths]
  by_cases nesting : result.nesting > MAX_COLLECTION_DEPTH
  · rw [if_pos nesting]
    exact ⟨nofun, fun ⟨within, _⟩ => absurd within (not_le.mpr nesting)⟩
  rw [if_neg nesting]
  constructor
  · intro ran
    obtain ⟨_, payload, ran⟩ := Except.bind_eq_ok.mp ran
    obtain ⟨_, flowsFit, ran⟩ := Except.bind_eq_ok.mp ran
    obtain ⟨_, stepsFit, ran⟩ := Except.bind_eq_ok.mp ran
    obtain ⟨frozen, froze, same⟩ := Except.bind_eq_ok.mp ran
    obtain ⟨fits, rfl⟩ := freezeJson_eq_ok.mp froze
    obtain ⟨document, rest⟩ := Prod.mk.inj (Except.pure_eq_ok.mp same)
    exact ⟨not_lt.mp nesting, (freezeJson_eq_ok.mp payload).1,
      fun flow mem => freezeResult_eq_ok.mp (Except.forM_eq_ok.mp flowsFit flow mem),
      fun step mem => freezeResult_eq_ok.mp (Except.forM_eq_ok.mp stepsFit step mem),
      fits, document, Prod.mk.inj rest⟩
  · rintro ⟨-, payload, flowsFit, stepsFit, fits, rfl, rfl, rfl⟩
    refine Except.bind_eq_ok.mpr ⟨_, freezeJson_eq_ok.mpr ⟨payload, rfl⟩, ?_⟩
    refine Except.bind_eq_ok.mpr ⟨(), Except.forM_eq_ok.mpr fun flow mem =>
      freezeResult_eq_ok.mpr (flowsFit flow mem), ?_⟩
    refine Except.bind_eq_ok.mpr ⟨(), Except.forM_eq_ok.mpr fun step mem =>
      freezeResult_eq_ok.mpr (stepsFit step mem), ?_⟩
    exact Except.bind_eq_ok.mpr ⟨_, freezeJson_eq_ok.mpr ⟨fits, rfl⟩, rfl⟩

/-- The allowance for a nested result. -/
theorem document_bound {result : ExecutionResult} (nesting : result.nesting ≤ MAX_COLLECTION_DEPTH) :
    min MAX_EXECUTION_JSON_DEPTH (MAX_JSON_DEPTH + 5 + 5 * result.nesting) =
      MAX_JSON_DEPTH + 5 + 5 * result.nesting := by
  have limits : MAX_COLLECTION_DEPTH = 16 ∧ MAX_JSON_DEPTH = 64 ∧ MAX_EXECUTION_JSON_DEPTH = 192 :=
    ⟨rfl, rfl, rfl⟩
  omega

/-- What a snapshot is made of fits. -/
theorem fits_of_snapshots {result : ExecutionResult} (snapshots : Snapshots result) :
    result.Fits := by
  obtain ⟨flows, steps, frozen, -⟩ := snapshots
  obtain ⟨nesting, payload, flowsFit, stepsFit, fits, -⟩ := snapshotExecution_eq_ok.mp frozen
  have projections : ∀ tokens name item flow, Final result tokens (.flow name item flow) →
      ∀ value ∈ flow.result, depth value ≤ MAX_JSON_DEPTH + 5 * flow.nesting := by
    intro tokens name item flow final
    have own := flowsFit ⟨name, pointer tokens, flow, item⟩ (mem_flowObservations.mpr ⟨_, rfl, final⟩)
    rwa [childDepth_flowDepths final] at own
  have operations : ∀ tokens flow name step, Final result tokens (.step flow name step) →
      ∀ value ∈ step.operationResult, depth value ≤ MAX_JSON_DEPTH := by
    intro tokens flow name step final
    exact stepsFit ⟨flow, name, pointer tokens, step⟩ (mem_stepObservations.mpr ⟨_, rfl, final⟩)
  rw [document_bound nesting] at fits
  obtain ⟨metadata, attempts, retries⟩ := (modelDump_fits_iff payload projections operations).mp fits
  exact ⟨nesting, payload, metadata, projections, operations, attempts, retries⟩

/-- What fits has a snapshot. -/
theorem snapshots_of_fits {result : ExecutionResult} (fits : result.Fits) : Snapshots result := by
  refine ⟨_, _, snapshotExecution_eq_ok.mpr ⟨fits.nesting, fits.payload, ?_, ?_, ?_, rfl, rfl, rfl⟩,
    executionRecords_indexes result⟩
  · intro flow mem
    obtain ⟨tokens, path, final⟩ := mem_flowObservations.mp mem
    rw [path, childDepth_flowDepths final]
    exact fits.projections _ _ _ _ final
  · intro step mem
    obtain ⟨tokens, path, final⟩ := mem_stepObservations.mp mem
    exact fits.operations _ _ _ _ final
  · rw [document_bound fits.nesting]
    exact (modelDump_fits_iff fits.payload fits.projections fits.operations).mpr
      ⟨fits.metadata, fits.attempts, fits.retries⟩

/-- A result has a snapshot exactly when no value nests deeper than the allowance for its place. -/
theorem snapshots_iff_fits (result : ExecutionResult) : Snapshots result ↔ result.Fits :=
  ⟨fits_of_snapshots, snapshots_of_fits⟩

/-! ## A repeated flow with a deep result -/

mutual

/-- Whether two documents are the same. -/
def same : Json → Json → Bool
  | .null, .null => true
  | .bool a, .bool b => a == b
  | .int a, .int b => a == b
  | .float a, .float b => a == b
  | .str a, .str b => a == b
  | .arr items, .arr others => sameItems items others
  | .obj members, .obj others => sameMembers members others
  | _, _ => false

/-- The items are the same. -/
def sameItems : List Json → List Json → Bool
  | [], [] => true
  | item :: rest, other :: others => same item other && sameItems rest others
  | _, _ => false

/-- The members are the same. -/
def sameMembers : Object → Object → Bool
  | [], [] => true
  | (key, value) :: rest, (other, found) :: others =>
      key == other && same value found && sameMembers rest others
  | _, _ => false

end

mutual

/-- What is found the same is equal. -/
theorem eq_of_same : (value other : Json) → same value other = true → value = other
  | .null, .null, _ => rfl
  | .bool _, .bool _, equal => congrArg _ (eq_of_beq equal)
  | .int _, .int _, equal => congrArg _ (eq_of_beq equal)
  | .float _, .float _, equal => congrArg _ (eq_of_beq equal)
  | .str _, .str _, equal => congrArg _ (eq_of_beq equal)
  | .arr items, .arr others, equal => congrArg _ (eq_of_sameItems items others equal)
  | .obj members, .obj others, equal => congrArg _ (eq_of_sameMembers members others equal)

/-- Items that are found the same are equal. -/
theorem eq_of_sameItems : (items others : List Json) → sameItems items others = true → items = others
  | [], [], _ => rfl
  | item :: rest, other :: others, equal => by
      obtain ⟨first, equal⟩ := Bool.and_eq_true_iff.mp equal
      rw [eq_of_same item other first, eq_of_sameItems rest others equal]

/-- Members that are found the same are equal. -/
theorem eq_of_sameMembers : (members others : Object) → sameMembers members others = true →
    members = others
  | [], [], _ => rfl
  | (key, value) :: rest, (other, found) :: others, equal => by
      obtain ⟨first, equal⟩ := Bool.and_eq_true_iff.mp equal
      obtain ⟨keys, first⟩ := Bool.and_eq_true_iff.mp first
      rw [eq_of_beq keys, eq_of_same value found first, eq_of_sameMembers rest others equal]

end

/-- Refine twice: the payload never says that the document is done. -/
def nestedRepeat : RepeatPlan where
  maxAttempts := 2
  two_le := refineRepeat.two_le
  untilCondition := .leaf
    { source := .pointer "/payload/done" none, operator := .present, operand := .bool true }

/-- A repeated flow. -/
def nestedFlow : FlowPlan where
  name := "refine"
  steps := [exampleStep]
  transition := some (.direct { outcome := some .completed })
  repeatPlan := some nestedRepeat
  nodup := exampleFlow.nodup
  called := refineFlow.called

/-- The only step returns a document as deep as the engine accepts. -/
def nestedRunner : WorkflowRunner where
  plan := { name := "example", revision := "1", start := .flow "refine", flows := [nestedFlow],
            nodup := List.nodup_singleton _ }
  limits := {}
  services := { exampleServices with
    execute := fun _ _ _ context => (.returned { result := some (wrapped 64) }, context.budget) }
  deadline := 1

/-- A usage of nothing. -/
def noUsage : UsageDocument where
  value := .obj [("model_requests", .int 0), ("tool_calls", .int 0), ("output_retries", .int 0),
    ("input_tokens", .int 0), ("output_tokens", .int 0), ("cache_read_input_tokens", .int 0),
    ("cache_write_input_tokens", .int 0), ("reasoning_output_tokens", .int 0)]
  depth_le := by decide +kernel

/-- A completed outcome without usage. -/
def measured : Outcome := { status := .completed, usage := some noUsage, elapsedSeconds := some 0 }

/-- A step with a result of the deepest value. -/
def nestedStep : StepResult := .operation measured (some (wrapped 64)) none

/-- An attempt with that step. -/
def nestedAttempt (index : ℕ) : Json :=
  .obj ([("attempt", .int index)] ++ measured.members (some (.obj [])) ++
    [("steps", .obj [("first", nestedStep.document)])])

/-- The result of a run of that flow. -/
def nestedResult : ExecutionResult where
  id := "run"
  workflow := "example"
  revision := "1"
  status := .completed
  usage := noUsage
  payload := .obj []
  metadata := []
  flows := [("refine", .mk measured (some (.obj [])) [("first", nestedStep)]
    { attemptCount := 2, attempts := [nestedAttempt 1, nestedAttempt 2], usage := some noUsage,
      elapsedSeconds := some 0, stoppedBy := some .exhausted })]
  transitions := [{ source := "refine", reason := .completed, outcome := some .completed }]
  start := some { flow := "refine" }
  nodup := List.nodup_singleton _
  distinct := by
    rintro entry mem
    obtain rfl := List.mem_singleton.mp mem
    exact ⟨List.nodup_singleton _, trivial, trivial⟩

/-- The result is the one of the run. -/
theorem nestedResult_mapped :
    Mapped "run" (run nestedRunner exampleEnvelope .workflow).1 nestedResult := by
  have equal : (match toExecutionDocument "run" (run nestedRunner exampleEnvelope .workflow).1 with
      | .ok document => same document nestedResult.modelDump
      | .error _ => false) = true := by
    decide +kernel
  unfold Mapped
  cases made : toExecutionDocument "run" (run nestedRunner exampleEnvelope .workflow).1 with
  | error error =>
    rw [made] at equal
    cases equal
  | ok document =>
    rw [made] at equal
    rw [eq_of_same _ _ equal]

/-- Each attempt nests its steps two levels deeper than the flow does. -/
theorem nestedResult_unfit : ¬ nestedResult.Fits := by
  intro fits
  have final : Final nestedResult ["flows", "refine"] (.flow "refine" none _) :=
    .intro List.mem_cons_self (.self _)
  have within := fits.attempts _ _ _ _ final (nestedAttempt 1) List.mem_cons_self
  have deep : ¬ depth (nestedAttempt 1) + (["flows", "refine"].length + 2) ≤
      MAX_JSON_DEPTH + 5 + 5 * nestedResult.nesting := by
    decide +kernel
  exact deep within

/-- A run whose result has no snapshot. -/
theorem nested_attempts_unscored :
    ¬ ∀ (r : WorkflowRunner) (envelope : AcceptedEnvelope) (id : String)
    (result : ExecutionResult), Mapped id (run r envelope .workflow).1 result → Snapshots result :=
  fun all => nestedResult_unfit (fits_of_snapshots (all _ _ _ _ nestedResult_mapped))

end Foliqant.Evaluation
