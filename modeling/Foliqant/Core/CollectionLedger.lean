import Foliqant.Core.RepeatProtocol

/-!
# The ledger of a collection

A collection validates its whole batch, runs its items in order up to the first one that fails, and
records an entry for every item. The entries are written only when no item raises, which the code
leaves open for the rounds of a repeated item, and when every amount of the executed flows, and of
their sums, can be rounded.
-/

namespace Foliqant.Core

open Exec JsonText
open Except (Succeeds succeeds_bind succeeds_first succeeds_map)

/-! ## Records that can be written -/

/-- The amount has at most 28 digits when it is rounded to millionths. -/
def Cost.Writable (cost : Cost) : Prop :=
  ∀ amount, cost.amount = some amount → roundHalfEven (amount * (1000000 : ℕ)) < 10 ^ 28

/-- The costs of a usage can be written. -/
def Usage.Writable (usage : Usage) : Prop :=
  (∀ cost, usage.cost rounded = some cost → cost.Writable) ∧
    ∀ entry ∈ usage.byModel, ∀ cost, entry.2.cost = some cost → cost.Writable

/-- Every amount of a run can be written, and its steps have different names. -/
structure FlowRun.Writable (run : FlowRun) : Prop where
  usage : ∀ usage, run.usage = some usage → usage.Writable
  steps : ∀ entry ∈ run.steps, ∀ usage, entry.2.usage = some usage → usage.Writable
  names : (Dict.keys run.steps).Nodup

/-- Every run of a repeated or retry flow can be written, and so can their sum. -/
structure AttemptsWritable (attempts : List FlowRun) : Prop where
  each : ∀ attempt ∈ attempts, attempt.Writable
  total : (attemptsUsage attempts).Writable

/-- A record whose runs can be written. -/
structure FlowRecord.Writable (record : FlowRecord) : Prop where
  last : record.toFlowRun.Writable
  attempts : ∀ attempt ∈ record.attempts, attempt.Writable
  total : ∀ usage, record.totalUsage = some usage → usage.Writable

/-- An item whose records can be written. -/
structure ItemRun.Writable (ran : ItemRun) : Prop where
  record : ran.record.Writable
  retry : ∀ record, ran.retry = some record → record.Writable

/-- The amounts that can be written with six decimals. -/
theorem quantize_succeeds {amount : ℚ≥0} :
    (quantize amount).Succeeds ↔ roundHalfEven (amount * (1000000 : ℕ)) < 10 ^ 28 := by
  have hscale : ((1000000 : ℕ) : ℚ≥0) = 10 ^ 6 := by norm_num
  rw [hscale]
  unfold quantize
  split <;> rename_i h
  · exact iff_of_true ⟨_, rfl⟩ h
  · exact iff_of_false (Except.not_succeeds_error _) h

/-- A cost is written when its amount can be. -/
theorem costValue_succeeds {cost : Cost} : (costValue cost).Succeeds ↔ cost.Writable := by
  obtain ⟨currency, amount, model⟩ := cost
  cases amount with
  | none => exact iff_of_true ⟨_, rfl⟩ fun _ h => by cases h
  | some amount =>
    refine ((succeeds_first fun _ => ⟨_, rfl⟩).trans quantize_succeeds).trans ?_
    constructor
    · rintro h _ ⟨⟩
      exact h
    · intro h
      exact h amount rfl

/-- A cost that may be missing is written when it can be. -/
theorem costMembers_succeeds {cost : Option Cost} :
    (costMembers cost).Succeeds ↔ ∀ c, cost = some c → c.Writable := by
  cases cost with
  | none => exact iff_of_true ⟨_, rfl⟩ fun _ h => by cases h
  | some cost =>
    refine costValue_succeeds.trans ⟨?_, fun h => h cost rfl⟩
    rintro h _ ⟨⟩
    exact h

/-- The usage by models is written when each cost can be. -/
theorem byModelValue_succeeds {byModel : ByModel} : (byModelValue byModel).Succeeds ↔
    ∀ entry ∈ byModel, ∀ cost, entry.2.cost = some cost → cost.Writable := by
  induction byModel with
  | nil => exact iff_of_true ⟨_, rfl⟩ fun _ h => absurd h List.not_mem_nil
  | cons entry rest ih =>
    rw [List.forall_mem_cons, ← ih, ← costMembers_succeeds]
    refine (succeeds_bind fun _ _ => succeeds_map).trans (and_congr_left' ?_)
    exact succeeds_map

/-- A usage is written when its costs can be. -/
theorem usageValue_succeeds {usage : Usage} : (usageValue usage).Succeeds ↔ usage.Writable := by
  unfold usageValue Usage.Writable
  rw [← costMembers_succeeds, ← byModelValue_succeeds]
  exact succeeds_bind fun _ _ => succeeds_map

/-- A usage that may be missing is written when it can be. -/
theorem optionalUsage_succeeds {usage : Option Usage} :
    (optionalUsage usage).Succeeds ↔ ∀ u, usage = some u → u.Writable := by
  cases usage with
  | none => exact iff_of_true ⟨_, rfl⟩ fun _ h => by cases h
  | some usage =>
    refine (succeeds_map.trans usageValue_succeeds).trans ⟨?_, fun h => h usage rfl⟩
    rintro h _ ⟨⟩
    exact h

/-- A record is written when its usage can be. -/
theorem recordValue_succeeds {status : Status} {result : Option Json} {usage : Option Usage}
    {elapsedSeconds : Option ℚ} {error : Option Failure} :
    (recordValue status result usage elapsedSeconds error).Succeeds ↔
      ∀ u, usage = some u → u.Writable :=
  succeeds_map.trans optionalUsage_succeeds

/-- Steps are written when each can be. -/
theorem stepValues_succeeds {done : Object} {steps : List (String × StepRecord)}
    (fresh : (Dict.keys done).Nodup) : (stepValues done steps).Succeeds ↔
      (∀ entry ∈ steps, ∀ usage, entry.2.usage = some usage → usage.Writable) ∧
        (Dict.keys done ++ Dict.keys steps).Nodup := by
  induction steps generalizing done with
  | nil =>
    rw [show Dict.keys ([] : List (String × StepRecord)) = [] from rfl, List.append_nil]
    exact iff_of_true ⟨_, rfl⟩ ⟨fun _ h => absurd h List.not_mem_nil, fresh⟩
  | cons entry rest ih =>
    obtain ⟨name, step⟩ := entry
    unfold stepValues
    by_cases seen : name ∈ Dict.keys done
    · rw [if_pos seen]
      refine iff_of_false (Except.not_succeeds_error _) fun h => ?_
      exact (List.nodup_append.mp h.2).2.2 name seen name List.mem_cons_self rfl
    · rw [if_neg seen, List.forall_mem_cons, and_assoc]
      have hkeys : ∀ value : Json, Dict.keys (done ++ [(name, value)]) = Dict.keys done ++ [name] :=
        fun value => List.map_append
      refine (succeeds_bind fun value _ => (ih ?_).trans ?_).trans (and_congr_left' ?_)
      · rw [hkeys]
        rw [← List.concat_eq_append]
        exact (List.nodup_concat _ _).mpr ⟨seen, fresh⟩
      · rw [hkeys, List.append_assoc]
        exact Iff.rfl
      · exact succeeds_map.trans recordValue_succeeds

/-- A run of a flow is written when its usages can be. -/
theorem flowValue_succeeds {run : FlowRun} : (flowValue run).Succeeds ↔ run.Writable := by
  have hsteps := @stepValues_succeeds [] run.steps List.nodup_nil
  refine (succeeds_bind fun _ _ => succeeds_map.trans hsteps).trans ?_
  rw [recordValue_succeeds]
  exact ⟨fun ⟨usage, steps, names⟩ => ⟨usage, steps, names⟩,
    fun ⟨usage, steps, names⟩ => ⟨usage, steps, names⟩⟩

/-- Attempts are written when each can be. -/
theorem attemptValues_succeeds {index : ℕ} {attempts : List FlowRun} :
    (attemptValues index attempts).Succeeds ↔ ∀ attempt ∈ attempts, attempt.Writable := by
  induction attempts generalizing index with
  | nil => exact iff_of_true ⟨_, rfl⟩ fun _ h => absurd h List.not_mem_nil
  | cons attempt rest ih =>
    rw [List.forall_mem_cons, ← flowValue_succeeds]
    exact succeeds_bind fun _ _ => succeeds_map.trans ih

/-- A flow's record is written when its runs can be. -/
theorem flowRecordValue_succeeds {record : FlowRecord} :
    (flowRecordValue record).Succeeds ↔ record.Writable := by
  refine (succeeds_bind fun _ _ => succeeds_bind fun _ _ =>
    succeeds_map.trans optionalUsage_succeeds).trans ?_
  rw [flowValue_succeeds, attemptValues_succeeds]
  exact ⟨fun ⟨last, attempts, total⟩ => ⟨last, attempts, total⟩,
    fun ⟨last, attempts, total⟩ => ⟨last, attempts, total⟩⟩

/-- An item's entry is written when its records can be. -/
theorem ledgerEntry_succeeds {item : Item} {ran : ItemRun} :
    (ledgerEntry item ran).Succeeds ↔ ran.Writable := by
  obtain ⟨record, retry, failure⟩ := ran
  cases retry with
  | none =>
    refine ((succeeds_first fun _ => ⟨_, rfl⟩).trans flowRecordValue_succeeds).trans ?_
    exact ⟨fun h => ⟨h, fun _ other => by cases other⟩, ItemRun.Writable.record⟩
  | some retry =>
    have hboth : (ledgerEntry item ⟨record, some retry, failure⟩).Succeeds ↔
        (flowRecordValue record).Succeeds ∧ retry.Writable :=
      succeeds_bind fun _ _ =>
        (succeeds_first fun _ => ⟨_, rfl⟩).trans flowRecordValue_succeeds
    rw [hboth, flowRecordValue_succeeds]
    refine ⟨fun h => ⟨h.1, ?_⟩, fun h => ⟨h.record, h.retry retry rfl⟩⟩
    rintro _ ⟨⟩
    exact h.2

/-- The entries of a ledger are written when every record can be. -/
theorem ledgerEntries_succeeds {items : List Item} {runs : List ItemRun}
    (same : items.length = runs.length) :
    (ledgerEntries items runs).Succeeds ↔ ∀ ran ∈ runs, ran.Writable := by
  induction items generalizing runs with
  | nil =>
    rw [List.eq_nil_of_length_eq_zero same.symm]
    exact iff_of_true ⟨_, rfl⟩ fun _ h => absurd h List.not_mem_nil
  | cons item items ih =>
    cases runs with
    | nil => cases same
    | cons ran runs =>
      rw [List.forall_mem_cons, ← ledgerEntry_succeeds]
      exact succeeds_bind fun _ _ => succeeds_map.trans (ih (Nat.succ.inj same))

/-- The records of steps that were not reached can be written. -/
theorem skipped_writable (flow : FlowPlan) : (skipped flow).Writable := by
  have hsteps : ∀ entry ∈ (skipped flow).steps, entry.2.usage = none := by
    intro entry mem
    obtain ⟨step, -, rfl⟩ := List.mem_map.mp mem
    rfl
  refine ⟨⟨?_, ?_, ?_⟩, fun _ h => absurd h List.not_mem_nil, ?_⟩
  · intro usage h
    cases h
  · intro entry mem usage h
    rw [hsteps entry mem] at h
    cases h
  · have hkeys : Dict.keys (skipped flow).steps = flow.steps.map StepPlan.name := keys_placeholders _
    rw [hkeys]
    exact flow.nodup
  · intro usage h
    cases h

/-! ## The batch -/

/-- A batch that a collection step may run. -/
structure Batch (r : WorkflowRunner) (call : CollectionCall) (raw : List Json) (items : List Item) :
    Prop where
  inputs : call.inputs = [("items", .arr raw)]
  bounded : raw.length ≤ call.maxItems
  accepted : List.Forall₂ (Accepted r call.flows) raw items
  ids : (items.map Item.id).Nodup
  wellFormed : ∀ item ∈ items, isItemId item.id = true

/-- The validation of a batch ends with its items and the world before the first one. -/
def Passes (r : WorkflowRunner) (call : CollectionCall) (w : World) (items : List Item)
    (w' : World) : Prop :=
  call.collectionDepth < MAX_COLLECTION_DEPTH ∧ ∃ raw, batchItems call.inputs = some raw ∧
    raw.length ≤ call.maxItems ∧ validateItems r call.flows [] raw ((), w.tick) = .ok items ((), w')

/-- Accepted items have different identifiers. -/
theorem validateItems_ids {r : WorkflowRunner} {flows seen : List String} {raw : List Json}
    {items : List Item} {w : World} {s : Unit × World}
    (h : validateItems r flows seen raw ((), w) = .ok items s) :
    (items.map Item.id).Nodup ∧ ∀ item ∈ items, isItemId item.id = true ∧ item.id ∉ seen := by
  induction raw generalizing seen items w with
  | nil =>
    cases h
    exact ⟨List.nodup_nil, fun _ h => absurd h List.not_mem_nil⟩
  | cons raw rest ih =>
    unfold validateItems at h
    by_cases late : r.deadline ≤ r.services.clock w.reads
    · rw [checkDeadline_bind_late late] at h
      cases h
    rw [checkDeadline_bind late] at h
    cases parts : itemParts raw with
    | none =>
      rw [parts] at h
      cases h
    | some part =>
      obtain ⟨id, name, payload⟩ := part
      simp only [parts] at h
      -- every refusal contradicts `h`; what passed was checked against the ids before it
      by_cases malformed : !isItemId id ∨ id ∈ seen ∨ name ∉ flows
      · rw [if_pos malformed] at h
        cases h
      rw [if_neg malformed] at h
      cases known : r.plan.flow? name with
      | none =>
        simp only [known] at h
        cases h
      | some flow =>
        simp only [known] at h
        cases callable : flow.callable with
        | false =>
          rw [callable, if_pos (by rfl)] at h
          cases h
        | true =>
          rw [callable, if_neg (by decide)] at h
          cases valid : r.services.validateFlowInput name (.obj payload) with
          | error error =>
            rw [valid, bind_error (lift_error _ rfl)] at h
            cases h
          | ok _ =>
            rw [valid, bind_ok (lift_ok _ rfl)] at h
            cases rests : validateItems r flows (id :: seen) rest ((), w.tick) with
            | error error s =>
              rw [bind_error rests] at h
              cases h
            | ok others s' =>
              rw [bind_ok rests] at h
              cases h
              obtain ⟨nodup, fresh⟩ := ih rests
              have hid : isItemId id = true ∧ id ∉ seen := by
                rw [not_or, not_or] at malformed
                exact ⟨by simpa using malformed.1, malformed.2.1⟩
              refine ⟨List.nodup_cons.mpr ⟨?_, nodup⟩, List.forall_mem_cons.mpr ⟨hid, ?_⟩⟩
              · intro mem
                obtain ⟨other, mem, same⟩ := List.mem_map.mp mem
                exact (fresh other mem).2 (same ▸ List.mem_cons_self)
              · intro other mem
                obtain ⟨valid, unseen⟩ := fresh other mem
                exact ⟨valid, fun seen => unseen (List.mem_cons_of_mem _ seen)⟩

/-- What passes the validation is a batch, and nothing ran. -/
theorem Passes.batch {r : WorkflowRunner} {call : CollectionCall} {w w' : World} {items : List Item}
    (h : Passes r call w items w') : w.Idle w' ∧ ∃ raw, Batch r call raw items := by
  obtain ⟨-, raw, inputs, bounded, validated⟩ := h
  have ran := validateItems_ran r call.flows [] raw w.tick
  rw [validated] at ran
  obtain ⟨nodup, fresh⟩ := validateItems_ids validated
  cases ran with
  | accepted each idle =>
    exact ⟨(World.Idle.tick w).trans idle, raw, batchItems_eq_some inputs, bounded, each, nodup,
      fun item mem => (fresh item mem).1⟩

/-! ## Items -/

/-- The collection stops after the item. -/
def ItemRun.Fails (ran : ItemRun) : Prop := ran.record.status = .failed ∨ ran.failure.isSome

instance (ran : ItemRun) : Decidable ran.Fails := by
  unfold ItemRun.Fails
  infer_instance

/-- The record of an item that was not reached. -/
def skippedItem (item : Item) : ItemRun := { record := skipped item.flow }

/-- The runs that an item executed: its flow once, or the attempts of its repeat and the runs of the
retry flow. -/
inductive Executions where
  | once (run : FlowRun)
  | repeated (attempts retries : List FlowRun)

/-- Every amount of the runs can be written, and so can the sums over attempts. -/
def Executions.Writable : Executions → Prop
  | .once run => run.Writable
  | .repeated attempts retries => AttemptsWritable attempts ∧ AttemptsWritable retries

section Items

variable (r : WorkflowRunner) (run : FlowCall → World → (FlowRun × List DecisionIssue) × World)
  (call : CollectionCall)

/-- The executions of one item, with what they record. -/
inductive ItemTrace (item : Item) (w : World) : Executions → ItemRun → World → Prop
  | once {envelope : AcceptedEnvelope} {record : FlowRun} {issues : List DecisionIssue} {w' : World}
      (received : call.envelope.withPayload (.obj item.payload) = .ok envelope)
      (single : item.flow.repeatPlan = none)
      (ran : run (itemCall item (call.collectionDepth + 1) envelope 1) (w.startItem item.flow) =
        ((record, issues), w')) :
      ItemTrace item w (.once record) { record := { toFlowRun := record } } w'
  | repeated {envelope : AcceptedEnvelope} {rep : RepeatPlan} {ended : RepeatEnd}
      (received : call.envelope.withPayload (.obj item.payload) = .ok envelope)
      (repeats : item.flow.repeatPlan = some rep)
      (trace : RepeatTrace r run item.flow rep (itemScope call item envelope)
        (itemCall item (call.collectionDepth + 1)) (World.startItem item.flow)
        (firstRound [] item.payload w) ended) :
      ItemTrace item w (.repeated ended.attempts ended.retries)
        { record := ended.record
          retry := rep.retryFlow.bind fun name =>
            (Dict.set item.flow.name ended.record ended.records).lookup name
          failure := ended.failure }
        (ended.world.append [.repeatStopped ended.cause.stop])

/-- The items in input order up to the first one that fails; the later ones are skipped. -/
inductive ItemsTrace : List Item → World → List ItemRun → World → Prop
  | done {w : World} : ItemsTrace [] w [] w
  | failed {item : Item} {rest : List Item} {w w' : World} {executed : Executions} {ran : ItemRun}
      (trace : ItemTrace r run call item w executed ran w') (fails : ran.Fails) :
      ItemsTrace (item :: rest) w (ran :: rest.map skippedItem) w'
  | next {item : Item} {rest : List Item} {w w₁ w' : World} {executed : Executions} {ran : ItemRun}
      {runs : List ItemRun} (trace : ItemTrace r run call item w executed ran w₁)
      (goesOn : ¬ ran.Fails)
      (others : ItemsTrace rest w₁ runs w') :
      ItemsTrace (item :: rest) w (ran :: runs) w'

/-- The item raises nothing: its input does not nest too deeply, and no round of its repeat raises. -/
def ItemRuns (item : Item) (w : World) : Prop :=
  depth (.obj item.payload) ≤ MAX_EXECUTION_JSON_DEPTH ∧
    ∀ rep, item.flow.repeatPlan = some rep → ItemFits r run call item rep w

/-- No item that is reached raises, and the amounts of what it executed can be written. -/
def ItemsFit : List Item → World → Prop
  | [], _ => True
  | item :: rest, w => ItemRuns r run call item w ∧
      ∀ executed ran w', ItemTrace r run call item w executed ran w' →
        executed.Writable ∧ (¬ ran.Fails → ItemsFit rest w')

variable {r run call}

/-- Every item has an entry. -/
theorem ItemsTrace.length {items : List Item} {w w' : World} {runs : List ItemRun}
    (h : ItemsTrace r run call items w runs w') : items.length = runs.length := by
  induction h with
  | done => rfl
  | failed => rw [List.length_cons, List.length_cons, List.length_map]
  | next _ _ _ ih => rw [List.length_cons, List.length_cons, ih]

/-- The loop returns what the trace of an item says. -/
theorem ItemTrace.runItem {item : Item} {w w' : World} {executed : Executions} {ran : ItemRun}
    (h : ItemTrace r run call item w executed ran w') :
    runItem r run call item ((), w) = .ok ran ((), w') := by
  cases h with
  | once received single ran =>
    rw [Core.runItem, bind_ok (lift_ok _ received), single]
    simp only
    rw [emit_bind, total_bind]
    unfold World.startItem at ran
    simp only [ran]
    rfl
  | @repeated envelope rep ended received repeats trace =>
    rw [Core.runItem, bind_ok (lift_ok _ received), repeats]
    exact @RepeatTrace.itemAttempts _ _ _ _ (itemScope call item envelope) _ _ _ trace
      (firstRound_room ..) (Nat.zero_add _)

/-- An item runs in one way. -/
theorem ItemTrace.unique {item : Item} {w w₁ w₂ : World} {executed₁ executed₂ : Executions}
    {ran₁ ran₂ : ItemRun} (h₁ : ItemTrace r run call item w executed₁ ran₁ w₁)
    (h₂ : ItemTrace r run call item w executed₂ ran₂ w₂) : ran₁ = ran₂ ∧ w₁ = w₂ := by
  have same := h₁.runItem.symm.trans h₂.runItem
  injection same with ran state
  exact ⟨ran, congrArg Prod.snd state⟩

/-- An item that raises nothing has a trace. -/
theorem ItemRuns.trace {item : Item} {w : World} (h : ItemRuns r run call item w)
    (known : ∀ rep, item.flow.repeatPlan = some rep →
      ∀ name, rep.retryFlow = some name → r.plan.flow? name ≠ none ∧ name ≠ item.flow.name) :
    ∃ executed ran w', ItemTrace r run call item w executed ran w' := by
  obtain ⟨envelope, received⟩ := withPayload_of_depth call.envelope h.1
  cases repeats : item.flow.repeatPlan with
  | none => exact ⟨_, _, _, .once received repeats rfl⟩
  | some rep =>
    obtain ⟨ended, trace⟩ := RepeatFits.trace (fun name retry => (known rep repeats name retry).1)
      ((h.2 rep repeats).rounds envelope received) (firstRound_room ..) (Nat.zero_add _)
    exact ⟨_, _, _, .repeated received repeats trace⟩

/-- An item that has a trace raised nothing. -/
theorem ItemTrace.runs {item : Item} {w w' : World} {executed : Executions} {ran : ItemRun}
    (h : ItemTrace r run call item w executed ran w') : ItemRuns r run call item w := by
  cases h with
  | once received single ran =>
    refine ⟨depth_of_withPayload received, fun rep repeats => ?_⟩
    rw [single] at repeats
    cases repeats
  | repeated received repeats trace =>
    refine ⟨depth_of_withPayload received, fun rep' repeats' => ?_⟩
    obtain rfl := Option.some.inj (repeats.symm.trans repeats')
    refine ⟨depth_of_withPayload received, fun envelope received' => ?_⟩
    obtain rfl := Except.ok.inj (received.symm.trans received')
    exact trace.fits

/-- The record of a repeat can be written when its attempts can be. -/
theorem RepeatTrace.writable_record {flow : FlowPlan} {rep : RepeatPlan} {scope : RepeatScope}
    {call : AcceptedEnvelope → ℕ → FlowCall} {opened : World → World} {records : Records}
    {inputs : Object} {w : World} {ended : RepeatEnd}
    (h : RepeatTrace r run flow rep scope call opened (firstRound records inputs w) ended) :
    ended.record.Writable ↔ AttemptsWritable ended.attempts := by
  obtain ⟨-, attempted, last⟩ := h.attempts_spec (firstRound_room ..)
  have some_ : ended.attempts ≠ [] :=
    List.ne_nil_of_length_pos (Nat.lt_of_le_of_lt (Nat.zero_le _) attempted)
  have total : ended.record.totalUsage = some (attemptsUsage ended.attempts) := if_neg some_
  constructor
  · rintro ⟨-, attempts, sum⟩
    exact ⟨attempts, sum _ total⟩
  · rintro ⟨attempts, sum⟩
    obtain ⟨usage, steps, names⟩ := attempts _ (List.mem_of_getLast? last)
    refine ⟨⟨usage, steps, names⟩, attempts, fun usage known => ?_⟩
    rw [total] at known
    exact Option.some.inj known ▸ sum

/-- The record of a retry flow can be written when its runs can be. -/
theorem retryRecord_writable {retries : List FlowRun} :
    (∀ record, retryRecord retries = some record → record.Writable) ↔ AttemptsWritable retries := by
  rcases List.eq_nil_or_concat retries with rfl | ⟨others, last, rfl⟩
  · refine iff_of_true (fun _ none => by cases none) ⟨fun _ mem => absurd mem List.not_mem_nil, ?_⟩
    exact ⟨fun _ known => (by cases known), fun _ mem => absurd mem List.not_mem_nil⟩
  · rw [List.concat_eq_append]
    have recorded : retryRecord (others ++ [last]) =
        some { toFlowRun := last, attempts := others ++ [last] } := by
      rw [retryRecord, List.getLast?_concat]
      rfl
    have total : FlowRecord.totalUsage { toFlowRun := last, attempts := others ++ [last] } =
        some (attemptsUsage (others ++ [last])) := if_neg (List.concat_ne_nil last others)
    constructor
    · intro written
      obtain ⟨-, attempts, sum⟩ := written _ recorded
      exact ⟨attempts, sum _ total⟩
    · rintro ⟨attempts, sum⟩ record known
      rw [recorded] at known
      cases known
      refine ⟨attempts last (List.mem_append_right others List.mem_cons_self), attempts, ?_⟩
      intro usage known
      rw [total] at known
      exact Option.some.inj known ▸ sum

/-- What an item records can be written when what it executed can be. -/
theorem ItemTrace.writable {item : Item} {w w' : World} {executed : Executions} {ran : ItemRun}
    (h : ItemTrace r run call item w executed ran w')
    (known : ∀ rep, item.flow.repeatPlan = some rep →
      ∀ name, rep.retryFlow = some name → r.plan.flow? name ≠ none ∧ name ≠ item.flow.name) :
    ran.Writable ↔ executed.Writable := by
  cases h with
  | once received single ran =>
    constructor
    · exact fun written => written.record.last
    · intro written
      refine ⟨⟨written, fun _ mem => absurd mem List.not_mem_nil, written.usage⟩, fun _ retry => ?_⟩
      cases retry
  | @repeated envelope rep ended received repeats trace =>
    -- The record of the retry flow has exactly its runs, or there is none.
    have retried : (rep.retryFlow.bind fun name =>
        (Dict.set item.flow.name ended.record ended.records).lookup name) =
          retryRecord ended.retries := by
      cases retry : rep.retryFlow with
      | none =>
        rw [trace.none retry]
        rfl
      | some name =>
        have ne := (known rep repeats name retry).2
        have nothing : ([] : Records).lookup name = retryRecord [] := rfl
        rw [Option.bind_some, Dict.lookup_set_of_ne ne, trace.retryRecord retry ne nothing,
          List.nil_append]
    constructor
    · rintro ⟨record, retry⟩
      refine ⟨trace.writable_record.mp record, retryRecord_writable.mp fun record here => ?_⟩
      exact retry record (retried.trans here)
    · rintro ⟨attempts, retries⟩
      refine ⟨trace.writable_record.mpr attempts, fun record here => ?_⟩
      exact retryRecord_writable.mpr retries record (retried.symm.trans here)

/-- The loop over the items returns what their trace says, and fails exactly with one of them. -/
theorem ItemsTrace.runItems {items : List Item} {w w' : World} {runs : List ItemRun}
    (h : ItemsTrace r run call items w runs w') (usage : Usage) (status : Status)
    (before : status ≠ .failed) :
    ∃ out, runItems r run call usage status items ((), w) = .ok out ((), w') ∧ out.items = runs ∧
      (out.status = .failed ↔ ∃ ran ∈ runs, ran.Fails) := by
  induction h generalizing usage status with
  | done =>
    refine ⟨_, rfl, rfl, iff_of_false before ?_⟩
    rintro ⟨ran, mem, -⟩
    exact List.not_mem_nil mem
  | failed trace fails =>
    rw [Core.runItems, bind_ok trace.runItem]
    simp only
    unfold ItemRun.Fails at fails
    rw [if_pos fails]
    exact ⟨_, rfl, rfl, iff_of_true rfl ⟨_, List.mem_cons_self, fails⟩⟩
  | @next item rest w w₁ w' _ ran runs trace goesOn others ih =>
    obtain ⟨out, returned, same, failed⟩ := ih (ran.addUsage usage)
      (if ran.record.status = .needsReview then .needsReview else status) (by
        split
        · exact Status.noConfusion
        · exact before)
    rw [Core.runItems, bind_ok trace.runItem]
    simp only
    have goesOn' := goesOn
    unfold ItemRun.Fails at goesOn'
    rw [if_neg goesOn', bind_ok returned]
    refine ⟨_, rfl, congrArg (ran :: ·) same, failed.trans ?_⟩
    rw [List.exists_mem_cons_iff]
    exact (or_iff_right goesOn).symm

/-- Items that fit run up to the first one that fails. -/
theorem ItemsFit.trace {items : List Item} {w : World} (h : ItemsFit r run call items w)
    (known : ∀ item ∈ items, ∀ rep, item.flow.repeatPlan = some rep →
      ∀ name, rep.retryFlow = some name → r.plan.flow? name ≠ none ∧ name ≠ item.flow.name) :
    ∃ runs w', ItemsTrace r run call items w runs w' ∧ ∀ ran ∈ runs, ran.Writable := by
  induction items generalizing w with
  | nil => exact ⟨[], w, .done, fun _ h => absurd h List.not_mem_nil⟩
  | cons item rest ih =>
    rw [List.forall_mem_cons] at known
    obtain ⟨first, others⟩ := h
    obtain ⟨executed, ran, w₁, trace⟩ := first.trace known.1
    obtain ⟨writable, goesOn⟩ := others executed ran w₁ trace
    have writable := (trace.writable known.1).mpr writable
    by_cases fails : ran.Fails
    · refine ⟨_, _, .failed trace fails, List.forall_mem_cons.mpr ⟨writable, ?_⟩⟩
      intro other mem
      obtain ⟨item, -, rfl⟩ := List.mem_map.mp mem
      exact ⟨skipped_writable item.flow, fun _ h => by cases h⟩
    · obtain ⟨runs, w', others, written⟩ := ih (goesOn fails) known.2
      exact ⟨_, _, .next trace fails others, List.forall_mem_cons.mpr ⟨writable, written⟩⟩

/-- Items that ran up to the first one that fails, and that can be written, fit. -/
theorem ItemsTrace.fits {items : List Item} {w w' : World} {runs : List ItemRun}
    (h : ItemsTrace r run call items w runs w')
    (known : ∀ item ∈ items, ∀ rep, item.flow.repeatPlan = some rep →
      ∀ name, rep.retryFlow = some name → r.plan.flow? name ≠ none ∧ name ≠ item.flow.name)
    (written : ∀ ran ∈ runs, ran.Writable) : ItemsFit r run call items w := by
  induction h with
  | done => trivial
  | failed trace fails =>
    refine ⟨trace.runs, fun executed ran w' other => ?_⟩
    obtain ⟨rfl, -⟩ := trace.unique other
    have writable := (other.writable (known _ List.mem_cons_self)).mp (written _ List.mem_cons_self)
    exact ⟨writable, fun goesOn => absurd fails goesOn⟩
  | next trace goesOn others ih =>
    rw [List.forall_mem_cons] at written known
    refine ⟨trace.runs, fun executed ran w' other => ?_⟩
    obtain ⟨rfl, rfl⟩ := trace.unique other
    exact ⟨(other.writable known.1).mp written.1, fun _ => ih known.2 written.2⟩

end Items

/-! ## The step -/

/-- The entry of an item: its id, its flow, the record of its executions, and the record of the
executions of its retry flow. -/
structure LedgerEntry (item : Item) (ran : ItemRun) (entry : Json) : Prop where
  written : ∃ fields retry, flowRecordValue ran.record = .ok fields ∧
    (∀ record, ran.retry = some record → ∃ members, flowRecordValue record = .ok members ∧
      retry = [("retry", (.obj members : Json))]) ∧
    (ran.retry = none → retry = []) ∧
    entry = .obj ([("id", .str item.id), ("flow", .str item.flow.name)] ++ fields ++ retry)

/-- What an item's entry says. -/
theorem ledgerEntry_spec {item : Item} {ran : ItemRun} {entry : Json}
    (h : ledgerEntry item ran = .ok entry) : LedgerEntry item ran entry := by
  obtain ⟨fields, written, h⟩ := Except.bind_eq_ok.mp h
  obtain ⟨record, retry, failure⟩ := ran
  cases retry with
  | none =>
    cases h
    exact ⟨fields, [], written, fun _ h => (by cases h), fun _ => rfl, rfl⟩
  | some retry =>
    obtain ⟨members, retried, h⟩ := Except.bind_eq_ok.mp h
    cases h
    refine ⟨fields, [("retry", .obj members)], written, ?_, fun h => (by cases h), rfl⟩
    rintro _ ⟨⟩
    exact ⟨members, retried, rfl⟩

/-- The entries follow the items. -/
theorem ledgerEntries_spec {items : List Item} {runs : List ItemRun} {entries : List Json}
    (same : items.length = runs.length) (h : ledgerEntries items runs = .ok entries) :
    List.Forall₂ (fun pair entry => LedgerEntry pair.1 pair.2 entry) (items.zip runs) entries := by
  induction items generalizing runs entries with
  | nil =>
    cases h
    exact .nil
  | cons item items ih =>
    cases runs with
    | nil => cases same
    | cons ran runs =>
      obtain ⟨entry, first, h⟩ := Except.bind_eq_ok.mp h
      obtain ⟨others, rest, h⟩ := Except.bind_eq_ok.mp h
      cases h
      exact .cons (ledgerEntry_spec first) (ih (Nat.succ.inj same) rest)

/-- An item with an entry could be written. -/
theorem LedgerEntry.writable {item : Item} {ran : ItemRun} {entry : Json}
    (h : LedgerEntry item ran entry) : ran.Writable := by
  obtain ⟨fields, retry, written, retried, -⟩ := h.written
  refine ⟨flowRecordValue_succeeds.mp ⟨_, written⟩, fun record h => ?_⟩
  obtain ⟨members, written, -⟩ := retried record h
  exact flowRecordValue_succeeds.mp ⟨_, written⟩

section Collection

variable (r : WorkflowRunner) (run : FlowCall → World → (FlowRun × List DecisionIssue) × World)
  (call : CollectionCall)

/-- Nothing ran: only the clock was read, or a defensive check of the graph failed. -/
def World.Untouched (w w' : World) : Prop :=
  ∃ events w₁, w.Idle w₁ ∧ w' = w₁.append events ∧
    ∀ event ∈ events, ∃ fault, event = .misrouted fault

/-- The first item of the batch starts. -/
def Starts (items : List Item) : Prop :=
  ∃ first rest received, items = first :: rest ∧
    call.envelope.withPayload (.obj first.payload) = .ok received

/-- The record of the step with a ledger of all items: the result, or the partial one when an item
failed. -/
structure Ledgered (items : List Item) (w : World) (record : StepRecord) : Prop where
  executed : ∃ runs entries w', ItemsTrace r run call items w runs w' ∧
    List.Forall₂ (fun pair entry => LedgerEntry pair.1 pair.2 entry) (items.zip runs) entries ∧
    entries.length = items.length ∧ (record.status = .failed ↔ ∃ ran ∈ runs, ran.Fails) ∧
    record.result = (if record.status = .failed then none
      else some (.obj [("items", .arr entries)])) ∧
    record.partialResult = if record.status = .failed then some (.obj [("items", .arr entries)])
      else none

/-- The world a step ends in. -/
def worldAfter {α : Type} : EStateM.Result Exn (Unit × World) α → World
  | .ok _ (_, w) => w
  | .error _ (_, w) => w

/-- What a collection step promises: nothing runs before the whole batch passed, and once an item
started the step records the ledger. -/
structure CollectionProtocol (w : World) : Prop where
  validated : (∀ items w₁, Passes r call w items w₁ → ¬ Starts call items) →
    w.Untouched (worldAfter (executeCollection r run call ((), w)))
  recorded : ∀ items w₁, Passes r call w items w₁ → Starts call items →
    (∃ raw, Batch r call raw items) ∧
      ∃ record w', executeCollection r run call ((), w) = .ok record ((), w') ∧
        Ledgered r run call items w₁ record

/-- The items of a batch that starts fit. -/
def CollectionFits (w : World) : Prop :=
  ∀ items w₁, Passes r call w items w₁ → Starts call items → ItemsFit r run call items w₁

variable {r run call}

/-- Nothing idle touches the world. -/
theorem World.Untouched.of_idle {w w' : World} (h : w.Idle w') : w.Untouched w' :=
  ⟨[], w', h, (World.append_nil w').symm, fun _ h => absurd h List.not_mem_nil⟩

/-- After the validation the items run. -/
theorem executeCollection_passes {w w₁ : World} {items : List Item}
    (h : Passes r call w items w₁) :
    executeCollection r run call ((), w) = (do
      let ran ← runItems r run call {} .completed items
      let entries ← lift (ledgerEntries items ran.items)
      let ended ← now r
      return ran.record (.obj [("items", .arr entries)]) (ended - r.services.clock w.reads) :
        Exec Unit StepRecord) ((), w₁) := by
  obtain ⟨depth, raw, inputs, bounded, validated⟩ := h
  rw [executeCollection, now_bind, if_neg (Nat.not_le_of_lt depth), inputs]
  simp only
  rw [if_neg (Nat.not_lt_of_le bounded), bind_ok validated]

/-- A refused collection does nothing. -/
theorem untouched_of_refused {w : World} (h : ∀ items w₁, ¬ Passes r call w items w₁) :
    w.Untouched (worldAfter (executeCollection r run call ((), w))) := by
  have hidle : w.Untouched w.tick := .of_idle (.tick w)
  rw [executeCollection, now_bind]
  by_cases depth : call.collectionDepth ≥ MAX_COLLECTION_DEPTH
  · rw [if_pos depth]
    exact ⟨[_], w.tick, .tick w, rfl, fun event mem => ⟨_, List.mem_singleton.mp mem⟩⟩
  rw [if_neg depth]
  cases inputs : batchItems call.inputs with
  | none => exact hidle
  | some raw =>
    simp only
    by_cases bounded : raw.length > call.maxItems
    · rw [if_pos bounded]
      exact hidle
    rw [if_neg bounded]
    have ran := validateItems_ran r call.flows [] raw w.tick
    cases validated : validateItems r call.flows [] raw ((), w.tick) with
    | ok items s =>
      exact absurd ⟨Nat.lt_of_not_le depth, raw, inputs, Nat.le_of_not_lt bounded, validated⟩
        (h items s.2)
    | error error s =>
      rw [validated] at ran
      rw [bind_error validated]
      cases ran with
      | refused cause idle => exact .of_idle ((World.Idle.tick w).trans idle)
      | misrouted allowed unfit idle =>
        exact ⟨[_], _, (World.Idle.tick w).trans idle, rfl,
          fun event mem => ⟨_, List.mem_singleton.mp mem⟩⟩

/-- A collection that does not start its items does nothing. -/
theorem untouched_of_idle {w : World}
    (h : ∀ items w₁, Passes r call w items w₁ → ¬ Starts call items) :
    w.Untouched (worldAfter (executeCollection r run call ((), w))) := by
  by_cases passes : ∃ items w₁, Passes r call w items w₁
  · obtain ⟨items, w₁, passes⟩ := passes
    have idle := passes.batch.1
    rw [executeCollection_passes passes]
    cases items with
    | nil => exact .of_idle (idle.trans (.tick w₁))
    | cons first rest =>
      cases received : call.envelope.withPayload (.obj first.payload) with
      | ok received' => exact absurd ⟨first, rest, received', rfl, received⟩ (h _ _ passes)
      | error error =>
        have raised : runItems r run call {} .completed (first :: rest) ((), w₁) =
            .error error ((), w₁) := by
          rw [runItems]
          refine bind_error ?_
          rw [runItem, bind_error (lift_error _ received)]
        rw [bind_error raised]
        exact .of_idle idle
  · exact untouched_of_refused fun items w₁ passed => passes ⟨items, w₁, passed⟩

/-- The items of a recorded ledger fit. -/
theorem Ledgered.fits {items : List Item} {w : World} {record : StepRecord}
    (h : Ledgered r run call items w record)
    (known : ∀ item ∈ items, ∀ rep, item.flow.repeatPlan = some rep →
      ∀ name, rep.retryFlow = some name → r.plan.flow? name ≠ none ∧ name ≠ item.flow.name) :
    ItemsFit r run call items w := by
  obtain ⟨runs, entries, w', trace, written, -⟩ := h.executed
  refine trace.fits known fun ran mem => ?_
  obtain ⟨item, paired⟩ : ∃ item, (item, ran) ∈ items.zip runs := by
    obtain ⟨i, hi, rfl⟩ := List.mem_iff_getElem.mp mem
    have hitems : i < items.length := trace.length ▸ hi
    exact ⟨items[i], List.mem_iff_getElem.mpr ⟨i, by simp [hi, hitems], by simp⟩⟩
  obtain ⟨entry, -, entered⟩ := written.exists_of_mem_left paired
  exact entered.writable

/-- Items that fit are recorded in a ledger. -/
theorem ledgered_of_fits {w w₁ : World} {items : List Item} (passes : Passes r call w items w₁)
    (fits : ItemsFit r run call items w₁)
    (known : ∀ item ∈ items, ∀ rep, item.flow.repeatPlan = some rep →
      ∀ name, rep.retryFlow = some name → r.plan.flow? name ≠ none ∧ name ≠ item.flow.name) :
    ∃ record w', executeCollection r run call ((), w) = .ok record ((), w') ∧
      Ledgered r run call items w₁ record := by
  obtain ⟨runs, w', trace, writable⟩ := fits.trace known
  obtain ⟨out, returned, same, failed⟩ := trace.runItems {} .completed Status.noConfusion
  obtain ⟨entries, written⟩ := (ledgerEntries_succeeds trace.length).mpr writable
  have entered := ledgerEntries_spec trace.length written
  have counted : entries.length = items.length := by
    rw [← entered.length_eq, List.length_zip, ← trace.length, Nat.min_self]
  rw [executeCollection_passes passes, bind_ok returned, same, bind_ok (lift_ok _ written), now_bind]
  exact ⟨_, _, rfl, runs, entries, w', trace, entered, counted, failed, rfl, rfl⟩

end Collection

/-! ## An item that raises -/

/-- Refine with the earlier attempts as the next document. -/
def historyRepeat : RepeatPlan :=
  { refineRepeat with retryInput := [("doc", .pointer "/flows/refine/attempts" none)] }

/-- A callable flow that is repeated. -/
def historyFlow : FlowPlan where
  name := "refine"
  steps := [exampleStep]
  output := some (.fields [("doc", .pointer "/payload" none)])
  callable := true
  repeatPlan := some historyRepeat
  nodup := exampleFlow.nodup

/-- A runner with that flow. -/
def historyRunner : WorkflowRunner where
  plan := { name := "example", revision := "1", start := .flow "example",
            flows := [historyFlow], nodup := List.nodup_singleton _ }
  limits := {}
  services := exampleServices
  deadline := 1

/-- The compiler accepts its repeat. -/
theorem history_accepted : Compiler.validateRepeats historyRunner.plan (fun _ => none) = .ok [] := by
  have hread : Compiler.readsCallable historyRunner.plan "refine" "/flows/refine/attempts" =
      false := by
    decide +kernel
  have hflows : historyRunner.plan.flows = [historyFlow] := rfl
  have hflow : Compiler.validateRepeat historyRunner.plan (fun _ => none) [] historyFlow =
      .ok [] := by
    simp [Compiler.validateRepeat, historyFlow, historyRepeat, Compiler.repeatInputKeys,
      Compiler.pointers, hread, Compiler.require]
    rfl
  rw [Compiler.validateRepeats, hflows, List.foldlM_cons, hflow]
  rfl

/-- A batch of one item, whose input nests as deeply as the payload of a flow allows. -/
def historyCall : CollectionCall where
  flows := ["refine"]
  maxItems := 1
  inputs := [("items", .arr [.obj [("id", .str "a"), ("flow", .str "refine"),
    ("input", .obj [("doc", wrapped 188)])]])]
  envelope := exampleEnvelope
  collectionDepth := 0

/-- The batch is accepted, and its first item starts. -/
def BatchStarts : EStateM.Result Exn (Unit × World) (List Item) → Bool
  | .ok (first :: _) _ => decide (depth (.obj first.payload) ≤ MAX_EXECUTION_JSON_DEPTH)
  | _ => false

/-- The step has no record. -/
def Raises : EStateM.Result Exn (Unit × World) StepRecord → Bool
  | .ok _ _ => false
  | .error _ _ => true

/-- A collection of it raises. -/
theorem history_raises :
    Raises (executeCollection historyRunner (executeFlow historyRunner) historyCall ((), {})) =
      true := by
  decide +kernel

/-- The collection starts its items. -/
theorem history_starts : ∃ items w₁, Passes historyRunner historyCall {} items w₁ ∧
    Starts historyCall items := by
  obtain ⟨raw, inputs, starts⟩ : ∃ raw, batchItems historyCall.inputs = some raw ∧
      BatchStarts (validateItems historyRunner historyCall.flows [] raw ((), World.tick {})) = true :=
    ⟨_, rfl, by decide +kernel⟩
  have bounded : raw.length ≤ 1 := by
    cases inputs
    exact le_rfl
  cases validated : validateItems historyRunner historyCall.flows [] raw ((), World.tick {}) with
  | error error s =>
    rw [validated] at starts
    cases starts
  | ok items s =>
    rw [validated] at starts
    cases items with
    | nil => cases starts
    | cons first rest =>
      obtain ⟨received, receives⟩ :=
        withPayload_of_depth historyCall.envelope (of_decide_eq_true starts)
      exact ⟨_, s.2, ⟨by decide, raw, inputs, bounded, validated⟩, first, rest, received, rfl,
        receives⟩

/-- The next input of an item that ran nests too deeply: the step has no ledger. -/
theorem raised_item_loses_ledger :
    ¬ CollectionProtocol historyRunner (executeFlow historyRunner) historyCall {} := by
  intro keeps
  obtain ⟨items, w₁, passes, starts⟩ := history_starts
  obtain ⟨-, record, w', recorded, -⟩ := keeps.recorded items w₁ passes starts
  have raises := history_raises
  rw [recorded] at raises
  cases raises

open Compiler in
/-- A collection of an accepted workflow keeps its protocol exactly when every item that is reached
returns, with amounts that can be written. -/
theorem collection_protocol_iff_fits {r : WorkflowRunner}
    {declared : FlowPlan → Option (List String)} {retryOf : List (String × String)}
    (accepted : validateRepeats r.plan declared = .ok retryOf)
    (run : FlowCall → World → (FlowRun × List DecisionIssue) × World) (call : CollectionCall)
    (w : World) : CollectionProtocol r run call w ↔ CollectionFits r run call w := by
  have owners := validateRepeats_spec accepted
  have known : ∀ items w₁, Passes r call w items w₁ → ∀ item ∈ items, ∀ rep,
      item.flow.repeatPlan = some rep → ∀ name, rep.retryFlow = some name →
        r.plan.flow? name ≠ none ∧ name ≠ item.flow.name := by
    intro items w₁ passes item mem rep repeats name retry
    obtain ⟨raw, batch⟩ := passes.batch.2
    obtain ⟨_, -, found⟩ := batch.accepted.exists_of_mem_right mem
    have owned := owners.owns item.flow (WorkflowPlan.flow?_mem found.known) rep name repeats retry
    obtain ⟨ne, target, known, -⟩ := owners.accepted _ owned
    exact ⟨by rw [known]; exact Option.some_ne_none _, ne⟩
  constructor
  · intro keeps items w₁ passes starts
    obtain ⟨-, record, w', -, ledgered⟩ := keeps.recorded items w₁ passes starts
    exact ledgered.fits (known items w₁ passes)
  · intro fits
    refine ⟨untouched_of_idle, fun items w₁ passes starts => ⟨passes.batch.2, ?_⟩⟩
    exact ledgered_of_fits passes (fits items w₁ passes starts) (known items w₁ passes)

/-- On this collection the protocol is kept when it fits. -/
theorem history_protocol_iff_fits :
    CollectionProtocol historyRunner (executeFlow historyRunner) historyCall {} ↔
      CollectionFits historyRunner (executeFlow historyRunner) historyCall {} :=
  collection_protocol_iff_fits history_accepted _ _ _

end Foliqant.Core
