import Foliqant.Compiler.PatternBounds
import Foliqant.Core.RepeatBehavior

/-!
# The shape of a flow record

The loop over the steps begins with a placeholder for every step and fills in one record a round.
`StepsShape` follows it from the front: each step completed or was skipped by its guard, until one
stopped the flow; the later ones keep their placeholders. It also says which records a step sees, as a
function of the final records of the earlier steps and of the steps that are left.
-/

namespace Foliqant.Core

open Exec

/-- The records of steps that were not reached. -/
def placeholders (steps : List StepPlan) : List (String × StepRecord) :=
  steps.map fun step => (step.name, skippedStep step)

/-- No steps, no placeholders. -/
@[simp] theorem placeholders_nil : placeholders [] = [] := rfl

/-- The placeholder of a step comes first. -/
@[simp] theorem placeholders_cons (step : StepPlan) (steps : List StepPlan) :
    placeholders (step :: steps) = (step.name, skippedStep step) :: placeholders steps := rfl

/-- Placeholders stand under the names of their steps. -/
theorem keys_placeholders (steps : List StepPlan) :
    Dict.keys (placeholders steps) = steps.map StepPlan.name := by
  rw [Dict.keys, placeholders, List.map_map]
  rfl

/-- How the loop over the steps stopped; a failure comes with the error of the step. -/
inductive FlowStop where
  | finished | review | failed (error : Option Failure)

/-- The records a step sees, from the final ones of the earlier steps and the steps that are left. -/
abbrev Sees := List (String × StepRecord) → List StepPlan → List (String × StepRecord)

/-- The earlier steps as reported, with placeholders for the step itself and the later ones. -/
def seesPlaceholders : Sees := fun earlier remaining => earlier ++ placeholders remaining

section Shape

variable (r : WorkflowRunner) (collection : CollectionCall → Exec Unit StepRecord) (call : FlowCall)
  (sees : Sees)

/-- The remaining steps of a flow with their final records: each completed or was skipped by its guard,
at most one stopped the flow, and the later ones were never begun. -/
inductive StepsShape : List (String × StepRecord) → List StepPlan → FlowLocals → World →
    List (String × StepRecord) → FlowStop → World → Prop
  | done {earlier : List (String × StepRecord)} {l : FlowLocals} {w : World} :
      StepsShape earlier [] l w [] .finished w
  | skipped {earlier records : List (String × StepRecord)} {step : StepPlan} {rest : List StepPlan}
      {l l₁ : FlowLocals} {w w₁ w' : World} {stop : FlowStop}
      (context : l.records = sees earlier (step :: rest))
      (guard : evaluateGuard r call step l = .ok (some false))
      (ran : StepRan r collection call step l w (.ok .next (l₁, w₁)))
      (others : StepsShape (earlier ++ [(step.name, skippedStep step)]) rest l₁ w₁ records stop w') :
      StepsShape earlier (step :: rest) l w ((step.name, skippedStep step) :: records) stop w'
  | completed {earlier records : List (String × StepRecord)} {step : StepPlan} {rest : List StepPlan}
      {l l₁ : FlowLocals} {w w₁ w' : World} {stop : FlowStop} {record : StepRecord}
      (context : l.records = sees earlier (step :: rest))
      (open_ : evaluateGuard r call step l ≠ .ok (some false))
      (ran : StepRan r collection call step l w (.ok .next (l₁, w₁)))
      (recorded : l₁.records.lookup step.name = some record) (status : record.status = .completed)
      (others : StepsShape (earlier ++ [(step.name, record)]) rest l₁ w₁ records stop w') :
      StepsShape earlier (step :: rest) l w ((step.name, record) :: records) stop w'
  | reviewed {earlier : List (String × StepRecord)} {step : StepPlan} {rest : List StepPlan}
      {l l₁ : FlowLocals} {w w' : World} {record : StepRecord}
      (context : l.records = sees earlier (step :: rest))
      (ran : StepRan r collection call step l w (.ok .stop (l₁, w')))
      (recorded : l₁.records.lookup step.name = some record)
      (status : record.status = .needsReview) :
      StepsShape earlier (step :: rest) l w ((step.name, record) :: placeholders rest) .review w'
  /-- A collection with a failed item. -/
  | collectionFailed {earlier : List (String × StepRecord)} {step : StepPlan} {rest : List StepPlan}
      {l l₁ : FlowLocals} {w w' : World} {record : StepRecord}
      (context : l.records = sees earlier (step :: rest))
      (ran : StepRan r collection call step l w (.ok .stop (l₁, w')))
      (recorded : l₁.records.lookup step.name = some record) (status : record.status = .failed) :
      StepsShape earlier (step :: rest) l w ((step.name, record) :: placeholders rest)
        (.failed record.error) w'
  /-- The step was begun and raised. -/
  | raised {earlier : List (String × StepRecord)} {step : StepPlan} {rest : List StepPlan}
      {l l₁ : FlowLocals} {w w' : World} {error : Exn} {record : StepRecord} {failure : Failure}
      (context : l.records = sees earlier (step :: rest))
      (ran : StepRan r collection call step l w (.error error (l₁, w')))
      (begun : l₁.active = some step.name) (status : record.status = .failed)
      (reason : record.error = some failure) :
      StepsShape earlier (step :: rest) l w ((step.name, record) :: placeholders rest)
        (.failed (some failure)) w'
  /-- The flow failed before the step was begun. -/
  | refused {earlier : List (String × StepRecord)} {step : StepPlan} {rest : List StepPlan}
      {l : FlowLocals} {w w' : World} {error : Exn} {failure : Failure}
      (context : l.records = sees earlier (step :: rest))
      (ran : StepRan r collection call step l w (.error error (l, w')))
      (unbegun : l.active = none) :
      StepsShape earlier (step :: rest) l w (placeholders (step :: rest)) (.failed (some failure)) w'

variable {r collection call sees}

/-- The records stand under the names of the steps, in their order. -/
theorem StepsShape.keys {earlier records : List (String × StepRecord)} {steps : List StepPlan}
    {l : FlowLocals} {w w' : World} {stop : FlowStop}
    (h : StepsShape r collection call sees earlier steps l w records stop w') :
    Dict.keys records = steps.map StepPlan.name := by
  induction h with
  | done => rfl
  | skipped _ _ _ _ ih => rw [Dict.keys_cons, ih, List.map_cons]
  | completed _ _ _ _ _ _ ih => rw [Dict.keys_cons, ih, List.map_cons]
  | reviewed => rw [Dict.keys_cons, keys_placeholders, List.map_cons]
  | collectionFailed => rw [Dict.keys_cons, keys_placeholders, List.map_cons]
  | raised => rw [Dict.keys_cons, keys_placeholders, List.map_cons]
  | refused => exact keys_placeholders _

/-- What a step sees when its turn comes. -/
theorem StepsShape.context {earlier records : List (String × StepRecord)} {steps : List StepPlan}
    {l : FlowLocals} {w w' : World} {stop : FlowStop}
    (h : StepsShape r collection call sees earlier steps l w records stop w') (turn : steps ≠ []) :
    l.records = sees earlier steps := by
  cases h with
  | done => exact absurd rfl turn
  | skipped context => exact context
  | completed context => exact context
  | reviewed context => exact context
  | collectionFailed context => exact context
  | raised context => exact context
  | refused context => exact context

/-- Completed or skipped steps, then at most one that stopped for review or failed, then placeholders. -/
theorem StepsShape.form {earlier records : List (String × StepRecord)} {steps : List StepPlan}
    {l : FlowLocals} {w w' : World} {stop : FlowStop}
    (h : StepsShape r collection call sees earlier steps l w records stop w') :
    ∃ passed last later, records = passed ++ last ++ placeholders later ∧
      (∀ entry ∈ passed, entry.2.status = .completed ∨ entry.2.status = .skipped) ∧
      last.length ≤ 1 ∧
      ∀ entry ∈ last, entry.2.status = .needsReview ∨ entry.2.status = .failed := by
  -- the steps that passed, at most one that stopped the loop, and placeholders
  have hnil : ∀ {P : String × StepRecord → Prop}, ∀ entry ∈ [], P entry :=
    fun _ he => absurd he List.not_mem_nil
  have hone : ∀ {record : StepRecord} {name : String},
      record.status = .needsReview ∨ record.status = .failed →
      ∀ entry ∈ [(name, record)], entry.2.status = .needsReview ∨ entry.2.status = .failed := by
    intro record name hs entry he
    rw [List.mem_singleton.mp he]
    exact hs
  have hpass : ∀ {passed : List (String × StepRecord)} {record : StepRecord} {name : String},
      record.status = .completed ∨ record.status = .skipped →
      (∀ entry ∈ passed, entry.2.status = .completed ∨ entry.2.status = .skipped) →
      ∀ entry ∈ (name, record) :: passed,
        entry.2.status = .completed ∨ entry.2.status = .skipped := by
    intro passed record name hs hp entry he
    rcases List.mem_cons.mp he with rfl | he
    · exact hs
    · exact hp entry he
  induction h with
  | done => exact ⟨[], [], [], rfl, hnil, Nat.zero_le 1, hnil⟩
  | @skipped _ _ step _ _ _ _ _ _ _ _ _ _ _ ih =>
    obtain ⟨passed, last, later, rfl, hp, hl, hs⟩ := ih
    have hskipped : (skippedStep step).status = .skipped := rfl
    exact ⟨(step.name, skippedStep step) :: passed, last, later, rfl,
      hpass (.inr hskipped) hp, hl, hs⟩
  | @completed _ _ step _ _ _ _ _ _ _ record _ _ _ _ status _ ih =>
    obtain ⟨passed, last, later, rfl, hp, hl, hs⟩ := ih
    exact ⟨(step.name, record) :: passed, last, later, rfl, hpass (.inl status) hp, hl, hs⟩
  | @reviewed _ step rest _ _ _ _ record _ _ _ status =>
    exact ⟨[], [(step.name, record)], rest, rfl, hnil, le_rfl, hone (.inl status)⟩
  | @collectionFailed _ step rest _ _ _ _ record _ _ _ status =>
    exact ⟨[], [(step.name, record)], rest, rfl, hnil, le_rfl, hone (.inr status)⟩
  | @raised _ step rest _ _ _ _ _ record _ _ _ _ status _ =>
    exact ⟨[], [(step.name, record)], rest, rfl, hnil, le_rfl, hone (.inr status)⟩
  | @refused _ step rest =>
    exact ⟨[], [], step :: rest, rfl, hnil, Nat.zero_le 1, hnil⟩

/-- What is known of the records of collections. -/
def Settles (collection : CollectionCall → Exec Unit StepRecord) : Prop :=
  ∀ batch w record w', collection batch ((), w) = .ok record ((), w') →
    record.status = .completed ∨ record.status = .needsReview ∨ record.status = .failed

/-- The data of a whole flow between two steps. -/
structure Between (call : FlowCall) (earlier : List (String × StepRecord)) (steps : List StepPlan)
    (l : FlowLocals) : Prop where
  records : l.records = seesPlaceholders earlier steps
  active : l.active = none
  status : l.status = .completed
  error : l.error = none
  result : l.result = call.envelope.payload

/-- The data of a whole flow after its steps. -/
structure Closed (call : FlowCall) (records : List (String × StepRecord)) (stop : FlowStop)
    (l : FlowLocals) : Prop where
  records : l.records = records
  active : l.active = none
  result : l.result = call.envelope.payload
  status : match stop with
    | .finished => l.status = .completed ∧ l.error = none
    | .review => l.status = .needsReview ∧ l.error = none
    | .failed error => l.status = .failed ∧ l.error = error

variable {earlier : List (String × StepRecord)} {step : StepPlan} {rest : List StepPlan}
  {l l₁ : FlowLocals} {w w₁ : World}

/-- Recording the step whose turn it is. -/
theorem Between.set (h : Between call earlier (step :: rest) l)
    (fresh : step.name ∉ Dict.keys earlier) (record : StepRecord) :
    Dict.set step.name record l.records = earlier ++ (step.name, record) :: placeholders rest := by
  rw [h.records]
  exact Dict.set_append_cons fresh _ _ _

/-- A step's record takes the place of its placeholder. -/
theorem append_placeholders (record : StepRecord) :
    earlier ++ (step.name, record) :: placeholders rest
    = seesPlaceholders (earlier ++ [(step.name, record)]) rest := by
  rw [seesPlaceholders, List.append_assoc]
  rfl

variable (r call earlier step rest l) in
/-- What a round leaves. -/
def RoundLeaves : EStateM.Result Exn (FlowLocals × World) Control → Prop
  | .ok .next (l₁, _) =>
      evaluateGuard r call step l = .ok (some false) ∧
          Between call (earlier ++ [(step.name, skippedStep step)]) rest l₁ ∨
        evaluateGuard r call step l ≠ .ok (some false) ∧ ∃ record, record.status = .completed ∧
          l₁.records.lookup step.name = some record ∧
          Between call (earlier ++ [(step.name, record)]) rest l₁
  | .ok .stop (l₁, _) =>
      ∃ record, l₁.records.lookup step.name = some record ∧
        (record.status = .needsReview ∧
            Closed call (earlier ++ (step.name, record) :: placeholders rest) .review l₁ ∨
          record.status = .failed ∧ Closed call (earlier ++ (step.name, record) :: placeholders rest)
            (.failed record.error) l₁)
  | .error _ (l₁, _) =>
      l₁ = l ∨ l₁.active = some step.name ∧ ∀ failure ended, ∃ record,
        record.status = .failed ∧ record.error = some failure ∧
          (l₁.fail failure ended).records = earlier ++ (step.name, record) :: placeholders rest

/-- A step that was begun fails with its record. -/
theorem Between.fail (h : Between call earlier (step :: rest) l)
    (fresh : step.name ∉ Dict.keys earlier) (same : l₁.records = l.records)
    (begun : l₁.active = some step.name) (failure : Failure) (ended : ℚ) : ∃ record,
      record.status = .failed ∧ record.error = some failure ∧
        (l₁.fail failure ended).records = earlier ++ (step.name, record) :: placeholders rest := by
  unfold FlowLocals.fail
  rw [begun]
  refine ⟨{ status := .failed
            error := some failure
            elapsedSeconds := some (ended - l₁.stepStarted)
            usage := some l₁.stepUsage
            collection := ((l₁.records.lookup step.name).map StepRecord.collection).getD false },
    rfl, rfl, ?_⟩
  show Dict.set step.name _ l₁.records = _
  rw [same]
  exact h.set fresh _

/-- A step that completed. -/
theorem Between.complete (h : Between call earlier (step :: rest) l) (whole : call.stepId = none)
    (fresh : step.name ∉ Dict.keys earlier) (outcome : StepOutcome) (value : Json) (ended : ℚ)
    {started : ℚ} {usage : Usage} {w' : World}
    (open_ : evaluateGuard r call step l ≠ .ok (some false)) :
    RoundLeaves r call earlier step rest l
      (.ok (if outcome.needsReview then .stop else .next)
        (FlowLocals.complete call.stepId step.name outcome value ended
          ((l.start step.name started).spend usage), w')) := by
  have hresult : (FlowLocals.complete call.stepId step.name outcome value ended
      ((l.start step.name started).spend usage)).result = call.envelope.payload := by
    simp only [FlowLocals.complete, whole, Option.isSome_none, Bool.false_eq_true, if_false]
    exact h.result
  cases hreview : outcome.needsReview with
  | false =>
    refine .inr ⟨open_, _, ?_, Dict.lookup_set_self _ _ _, ?_⟩
    · rw [hreview]
      rfl
    · refine ⟨(h.set fresh _).trans (append_placeholders _), rfl, ?_, h.error, hresult⟩
      simp only [FlowLocals.complete, hreview, Bool.false_eq_true, if_false]
      exact h.status
  | true =>
    refine ⟨_, Dict.lookup_set_self _ _ _, .inl ⟨?_, h.set fresh _, rfl, hresult, ?_, h.error⟩⟩
    · rw [hreview]
      rfl
    · simp only [FlowLocals.complete, hreview, if_true]

/-- A step that ended with a record of its own. -/
theorem Between.collect (h : Between call earlier (step :: rest) l) (whole : call.stepId = none)
    (fresh : step.name ∉ Dict.keys earlier) {record : StepRecord}
    (settled : record.status = .completed ∨ record.status = .needsReview ∨ record.status = .failed)
    {started : ℚ} {w' : World} (open_ : evaluateGuard r call step l ≠ .ok (some false)) :
    RoundLeaves r call earlier step rest l
      (.ok (if record.status = .failed ∨ record.status = .needsReview then .stop else .next)
        (FlowLocals.collect call.stepId step.name record (l.start step.name started), w')) := by
  have hresult : (FlowLocals.collect call.stepId step.name record
      (l.start step.name started)).result = call.envelope.payload := by
    simp only [FlowLocals.collect, whole, Option.isSome_none, Bool.false_eq_true, and_false, if_false]
    exact h.result
  rcases settled with hs | hs | hs
  · rw [hs, if_neg (by simp)]
    refine .inr ⟨open_, record, hs, Dict.lookup_set_self _ _ _, ?_⟩
    refine ⟨(h.set fresh _).trans (append_placeholders _), rfl, ?_, ?_, hresult⟩
    · simp only [FlowLocals.collect, hs, reduceCtorEq, or_self, if_false]
      exact h.status
    · simp only [FlowLocals.collect, hs, reduceCtorEq, if_false]
      exact h.error
  · rw [hs, if_pos (.inr rfl)]
    refine ⟨record, Dict.lookup_set_self _ _ _, .inl ⟨hs, h.set fresh _, rfl, hresult, ?_, ?_⟩⟩
    · simp only [FlowLocals.collect, hs, or_true, if_true]
    · simp only [FlowLocals.collect, hs, reduceCtorEq, if_false]
      exact h.error
  · rw [hs, if_pos (.inl rfl)]
    refine ⟨record, Dict.lookup_set_self _ _ _, .inr ⟨hs, h.set fresh _, rfl, hresult, ?_, ?_⟩⟩
    · simp only [FlowLocals.collect, hs, true_or, if_true]
    · simp only [FlowLocals.collect, hs, if_true]

/-- One round from between two steps. -/
theorem Between.round (h : Between call earlier (step :: rest) l) (whole : call.stepId = none)
    (settles : Settles collection) (fresh : step.name ∉ Dict.keys earlier)
    {result : EStateM.Result Exn (FlowLocals × World) Control}
    (ran : StepRan r collection call step l w result) :
    RoundLeaves r call earlier step rest l result := by
  cases ran with
  | late => exact .inl rfl
  | guardFailed => exact .inl rfl
  | skipped guard =>
    refine .inl ⟨guard, ?_⟩
    exact ⟨h.records.trans (append_placeholders _), h.active, h.status, h.error, h.result⟩
  | limit => exact .inl rfl
  | inputsFailed => exact .inr ⟨rfl, h.fail fresh rfl rfl⟩
  | operation guard open_ _ _ _ ran =>
    have hopen : evaluateGuard r call step l ≠ .ok (some false) := fun hg =>
      open_ (Except.ok.inj (guard.symm.trans hg))
    cases ran with
    | failed => exact .inr ⟨rfl, h.fail fresh rfl rfl⟩
    | ended => exact h.complete whole fresh _ _ _ hopen
  | collectionRaised => exact .inr ⟨rfl, h.fail fresh rfl rfl⟩
  | collectionEnded guard open_ _ _ _ ended =>
    have hopen : evaluateGuard r call step l ≠ .ok (some false) := fun hg =>
      open_ (Except.ok.inj (guard.symm.trans hg))
    exact h.collect whole fresh (settles _ _ _ _ ended) hopen

/-- Where the loop over the steps leaves a whole flow. -/
def LoopLeaves (r : WorkflowRunner) (collection : CollectionCall → Exec Unit StepRecord)
    (call : FlowCall) (earlier : List (String × StepRecord)) (steps : List StepPlan) (l : FlowLocals)
    (w : World) : EStateM.Result Exn (FlowLocals × World) Unit → Prop
  | .ok _ (l', w') => ∃ records stop,
      StepsShape r collection call seesPlaceholders earlier steps l w records stop w' ∧
        Closed call (earlier ++ records) stop l'
  | .error _ (l', w') => ∀ failure ended, ∃ records,
      StepsShape r collection call seesPlaceholders earlier steps l w records
        (.failed (some failure)) w' ∧ (l'.fail failure ended).records = earlier ++ records

/-- The steps of a flow have run in order up to a stop. -/
theorem StepsRan.shape {steps : List StepPlan} {result : EStateM.Result Exn (FlowLocals × World) Unit}
    (ran : StepsRan r collection call steps l w result) (whole : call.stepId = none)
    (settles : Settles collection) {earlier : List (String × StepRecord)}
    (nodup : (Dict.keys earlier ++ steps.map StepPlan.name).Nodup)
    (h : Between call earlier steps l) : LoopLeaves r collection call earlier steps l w result := by
  induction ran generalizing earlier with
  | done =>
    refine ⟨[], .finished, .done, ?_, h.active, h.result, h.status, h.error⟩
    rw [h.records]
    rfl
  | @next step rest l l₁ w w₁ result ran _ ih =>
    have hfresh : step.name ∉ Dict.keys earlier := fun hm =>
      List.disjoint_of_nodup_append nodup hm List.mem_cons_self
    have hnodup : ∀ record : StepRecord,
        (Dict.keys (earlier ++ [(step.name, record)]) ++ rest.map StepPlan.name).Nodup := by
      intro record
      have hkeys : Dict.keys (earlier ++ [(step.name, record)]) = Dict.keys earlier ++ [step.name] :=
        List.map_append
      rw [hkeys, List.append_assoc]
      exact nodup
    -- the record of the round joins the earlier ones, and the rest starts after it
    rcases h.round whole settles hfresh ran with ⟨guard, hl⟩ | ⟨hopen, record, hs, hrecorded, hl⟩
    · have hrest := ih (hnodup _) hl
      cases result with
      | ok _ s =>
        obtain ⟨records, stop, hshape, hclosed⟩ := hrest
        refine ⟨_, stop, .skipped h.records guard ran hshape, ?_⟩
        rwa [List.append_assoc] at hclosed
      | error _ s =>
        intro failure ended
        obtain ⟨records, hshape, hrecords⟩ := hrest failure ended
        refine ⟨_, .skipped h.records guard ran hshape, ?_⟩
        rwa [List.append_assoc] at hrecords
    · have hrest := ih (hnodup _) hl
      cases result with
      | ok _ s =>
        obtain ⟨records, stop, hshape, hclosed⟩ := hrest
        refine ⟨_, stop, .completed h.records hopen ran hrecorded hs hshape, ?_⟩
        rwa [List.append_assoc] at hclosed
      | error _ s =>
        intro failure ended
        obtain ⟨records, hshape, hrecords⟩ := hrest failure ended
        refine ⟨_, .completed h.records hopen ran hrecorded hs hshape, ?_⟩
        rwa [List.append_assoc] at hrecords
  | @stop step rest l l₁ w w₁ ran =>
    have hfresh : step.name ∉ Dict.keys earlier := fun hm =>
      List.disjoint_of_nodup_append nodup hm List.mem_cons_self
    -- the loop stops at a step that needs a review and at a failed collection
    obtain ⟨record, hrecorded, ⟨hs, hclosed⟩ | ⟨hs, hclosed⟩⟩ := h.round whole settles hfresh ran
    · exact ⟨_, _, .reviewed h.records ran hrecorded hs, hclosed⟩
    · exact ⟨_, _, .collectionFailed h.records ran hrecorded hs, hclosed⟩
  | @raised step rest l l₁ w w₁ error ran =>
    have hfresh : step.name ∉ Dict.keys earlier := fun hm =>
      List.disjoint_of_nodup_append nodup hm List.mem_cons_self
    intro failure ended
    rcases h.round whole settles hfresh ran with rfl | ⟨begun, hfails⟩
    · refine ⟨_, .refused h.records ran h.active, ?_⟩
      unfold FlowLocals.fail
      rw [h.active]
      exact h.records
    · obtain ⟨record, hs, hreason, hrecords⟩ := hfails failure ended
      exact ⟨_, .raised h.records ran begun hs hreason, hrecords⟩

end Shape

/-! ## Whole flows -/

/-- A collection that ran has ended as its items did. -/
theorem ItemsRan.status {r : WorkflowRunner}
    {run : FlowCall → World → (FlowRun × List DecisionIssue) × World} {batch : CollectionCall}
    {usage : Usage} {status : Status} {items : List Item} {w : World}
    {result : EStateM.Result Exn (Unit × World) ItemsRun}
    (h : ItemsRan r run batch usage status items w result)
    (before : status = .completed ∨ status = .needsReview) :
    ∀ ran s, result = .ok ran s →
      ran.status = .completed ∨ ran.status = .needsReview ∨ ran.status = .failed := by
  have hnext : ∀ {status : Status} {record : FlowRecord},
      status = .completed ∨ status = .needsReview →
      (if record.status = .needsReview then Status.needsReview else status) = .completed ∨
        (if record.status = .needsReview then Status.needsReview else status) = .needsReview := by
    intro status record hs
    split
    · exact .inr rfl
    · exact hs
  induction h with
  | done =>
    intro ran s heq
    cases heq
    exact before.imp_right .inl
  | raised =>
    intro ran s heq
    cases heq
  | failed =>
    intro ran s heq
    cases heq
    exact .inr (.inr rfl)
  | restRaised =>
    intro ran s heq
    cases heq
  | next _ _ _ ih =>
    intro ran s heq
    cases heq
    have hothers := ih (hnext before) _ _ rfl
    exact hothers

/-- The collections of a flow whose collections may nest `depth` levels deep. -/
def collectionsOf (r : WorkflowRunner) : ℕ → CollectionCall → Exec Unit StepRecord
  | 0 => fun _ => do let _ ← now r; refuse .collectionDepth
  | depth + 1 => executeCollection r (executeFlowTo r depth)

/-- Flows run with the collections below their depth. -/
theorem executeFlowTo_eq (r : WorkflowRunner) (depth : ℕ) (call : FlowCall) (w : World) :
    executeFlowTo r depth call w = executeFlowWith r (collectionsOf r depth) call w := by
  cases depth <;> rfl

/-- Collections settle at every depth. -/
theorem collectionsOf_settles (r : WorkflowRunner) (depth : ℕ) : Settles (collectionsOf r depth) := by
  intro batch w record w' ended
  cases depth with
  | zero => cases ended
  | succ depth =>
    have ran := executeCollection_ran r (executeFlowTo r depth) batch w
    have hended : executeCollection r (executeFlowTo r depth) batch ((), w)
        = .ok record ((), w') := ended
    rw [hended] at ran
    cases ran with
    | recorded _ _ _ _ _ items _ => exact items.status (.inl rfl) _ _ rfl

/-- The status of a flow, by how its steps stopped; only its output can fail it then. -/
inductive StatusOf (call : FlowCall) (run : FlowRun) : FlowStop → Prop
  | completed (status : run.status = .completed) (error : run.error = none) :
      StatusOf call run .finished
  | needsReview (status : run.status = .needsReview) (error : run.error = none) :
      StatusOf call run .review
  | failed {error : Option Failure} (status : run.status = .failed) (reason : run.error = error) :
      StatusOf call run (.failed error)
  | outputFailed {stop : FlowStop} {output : BindingPlan} {error : Exn}
      (stopped : stop = .finished ∨ stop = .review) (status : run.status = .failed)
      (projects : call.flow.output = some output)
      (fails : resolveBinding (bindingContext call.envelope run.steps) output = .error error) :
      StatusOf call run stop

/-- The result of a flow that did not fail: its output over the reported records, or its input. -/
def Projected (call : FlowCall) (run : FlowRun) (value : Json) : Prop :=
  match call.flow.output with
  | none => value = call.envelope.payload
  | some output => resolveBinding (bindingContext call.envelope run.steps) output = .ok value

/-- The record of a whole flow. Nothing is executed after its steps. -/
structure FlowShape (r : WorkflowRunner) (collection : CollectionCall → Exec Unit StepRecord)
    (sees : Sees) (call : FlowCall) (w : World) (run : FlowRun) (w' : World) : Prop where
  names : Dict.keys run.steps = call.flow.steps.map StepPlan.name
  form : ∃ passed last later, run.steps = passed ++ last ++ placeholders later ∧
    (∀ entry ∈ passed, entry.2.status = .completed ∨ entry.2.status = .skipped) ∧
    last.length ≤ 1 ∧ ∀ entry ∈ last, entry.2.status = .needsReview ∨ entry.2.status = .failed
  steps : ∃ started stop w₁, StepsShape r collection call sees [] call.flow.steps (call.init started)
      w.tick run.steps stop w₁ ∧
    StatusOf call run stop ∧
    (w₁.Idle w' ∨ ∃ failure w₂, w₁.Idle w₂ ∧ (w₂.append [.failed failure]).Idle w')
  failed : run.status = .failed → run.result = none
  projected : run.status ≠ .failed → ∃ value, run.result = some value ∧ Projected call run value

section Whole

variable {r : WorkflowRunner} {collection : CollectionCall → Exec Unit StepRecord} {call : FlowCall}

/-- Before the first step every record is a placeholder. -/
theorem between_init (whole : call.stepId = none) (started : ℚ) :
    Between call [] call.flow.steps (call.init started) := by
  have hsteps : call.steps = call.flow.steps := by
    unfold FlowCall.steps
    rw [whole]
  refine ⟨?_, rfl, rfl, rfl, rfl⟩
  show Dict.ofList (call.steps.map fun step => (step.name, skippedStep step)) = _
  rw [hsteps]
  refine Dict.ofList_of_nodup ?_
  have hkeys := keys_placeholders call.flow.steps
  rw [placeholders] at hkeys
  rw [hkeys]
  exact call.flow.nodup

/-- The shape of the steps is the shape of the flow. -/
theorem FlowShape.of_shape {w w₁ w' : World} {started : ℚ} {stop : FlowStop} {run : FlowRun}
    (shape : StepsShape r collection call seesPlaceholders [] call.flow.steps (call.init started)
      w.tick run.steps stop w₁) (status : StatusOf call run stop)
    (after : w₁.Idle w' ∨ ∃ failure w₂, w₁.Idle w₂ ∧ (w₂.append [.failed failure]).Idle w')
    (failed : run.status = .failed → run.result = none)
    (projected : run.status ≠ .failed → ∃ value, run.result = some value ∧ Projected call run value) :
    FlowShape r collection seesPlaceholders call w run w' :=
  ⟨shape.keys, shape.form, ⟨started, stop, w₁, shape, status, after⟩, failed, projected⟩

/-- A flow that reached its end has its output. -/
theorem Closed.output {records : List (String × StepRecord)} {stop : FlowStop} {l : FlowLocals}
    {value : Json} (h : Closed call records stop l) (whole : call.stepId = none)
    (output : projectOutput call l = .ok value) (elapsed : ℚ) (fails : l.status ≠ .failed) :
    Projected call (({ l with result := value } : FlowLocals).run elapsed) value := by
  unfold projectOutput at output
  unfold Projected
  rw [whole] at output
  cases hout : call.flow.output with
  | none =>
    rw [hout] at output
    exact (Except.ok.inj output).symm.trans h.result
  | some binding =>
    rw [hout] at output
    simp only [if_neg fails] at output
    exact output

/-- A run of a flow has its shape. -/
theorem FlowRan.shape {w w' : World} {run : FlowRun} {issues : List DecisionIssue}
    (ran : FlowRan r collection call w ((run, issues), w')) (whole : call.stepId = none)
    (settles : Settles collection) : FlowShape r collection seesPlaceholders call w run w' := by
  -- a call of the whole flow, not of a single step
  have hsteps : call.steps = call.flow.steps := by
    unfold FlowCall.steps
    rw [whole]
  have hloop : ∀ {started : ℚ} {result : EStateM.Result Exn (FlowLocals × World) Unit},
      StepsRan r collection call call.steps (call.init started) w.tick result →
      LoopLeaves r collection call [] call.flow.steps (call.init started) w.tick result := by
    intro started result h
    rw [hsteps] at h
    exact h.shape whole settles call.flow.nodup (between_init whole started)
  cases ran with
  | @finished started elapsed l w' body =>
    cases body with
    | @finished l _ value steps output =>
      obtain ⟨records, stop, hshape, hclosed⟩ := hloop steps
      have hrecords : records = l.records := hclosed.records.symm
      rw [hrecords] at hshape
      refine FlowShape.of_shape hshape ?_ (.inl (.tick _)) ?_ ?_
      · cases stop with
        | finished => exact .completed hclosed.status.1 hclosed.status.2
        | review => exact .needsReview hclosed.status.1 hclosed.status.2
        | failed error => exact .failed hclosed.status.1 hclosed.status.2
      · intro hs
        exact if_pos hs
      · intro hs
        exact ⟨value, if_neg hs, hclosed.output whole output elapsed hs⟩
  | @failed started ended elapsed l w₁ w₂ w₃ error failure body of idle after =>
    -- failing closes the active step first, if there is one
    have hfailed : (l.fail failure ended).status = .failed ∧
        (l.fail failure ended).error = some failure := by
      unfold FlowLocals.fail
      cases l.active with
      | none => exact ⟨rfl, rfl⟩
      | some name => exact ⟨rfl, rfl⟩
    have hresult : ((l.fail failure ended).run elapsed).status = .failed →
        ((l.fail failure ended).run elapsed).result = none := fun hs => if_pos hs
    have hend : w₁.Idle w' ∨ ∃ failure w₂, w₁.Idle w₂ ∧ (w₂.append [.failed failure]).Idle w' :=
      .inr ⟨failure, w₂, idle, after⟩
    cases body with
    -- the exception left the loop: the records are those of the active step and before
    | stepsFailed steps =>
      obtain ⟨records, hshape, hrecords⟩ := hloop steps failure ended
      have hrun : records = ((l.fail failure ended).run elapsed).steps := hrecords.symm
      rw [hrun] at hshape
      exact FlowShape.of_shape hshape (.failed hfailed.1 hfailed.2) hend hresult
        fun hs => absurd hfailed.1 hs
    -- the loop ended as it should, and the output binding raised
    | outputFailed steps output =>
      obtain ⟨records, stop, hshape, hclosed⟩ := hloop steps
      have hrun : ((l.fail failure ended).run elapsed).steps = l.records := by
        show (l.fail failure ended).records = _
        unfold FlowLocals.fail
        rw [hclosed.active]
      have hrecords : records = ((l.fail failure ended).run elapsed).steps := by
        rw [hrun]
        exact hclosed.records.symm
      rw [hrecords] at hshape
      refine FlowShape.of_shape hshape ?_ hend hresult fun hs => absurd hfailed.1 hs
      unfold projectOutput at output
      rw [whole] at output
      cases hout : call.flow.output with
      | none =>
        rw [hout] at output
        cases output
      | some binding =>
        rw [hout] at output
        simp only at output
        split at output
        case isTrue => cases output
        case isFalse hs =>
          -- the output is not evaluated after a failed step
          have hstop : stop = .finished ∨ stop = .review := by
            cases stop with
            | finished => exact .inl rfl
            | review => exact .inr rfl
            | failed error => exact absurd hclosed.status.1 hs
          have hfails : resolveBinding (bindingContext call.envelope
              ((l.fail failure ended).run elapsed).steps) binding = .error error := by
            rw [hrun]
            exact output
          exact .outputFailed hstop hfailed.1 hout hfails

end Whole

/-- Every execution of a whole flow records its steps in this shape. -/
theorem executeFlow_shape (r : WorkflowRunner) (call : FlowCall) (w : World) :
    FlowShape r (collectionsOf r (MAX_COLLECTION_DEPTH - call.collectionDepth)) seesPlaceholders
      { call with stepId := none } w
      (executeFlow r { call with stepId := none } w).1.1
      (executeFlow r { call with stepId := none } w).2 := by
  have hran := executeFlowWith_ran r
    (collectionsOf r (MAX_COLLECTION_DEPTH - call.collectionDepth)) { call with stepId := none } w
  rw [← executeFlowTo_eq] at hran
  exact hran.shape rfl (collectionsOf_settles r _)

/-! ## What the first step sees -/

/-- A step. -/
def exampleStep : StepPlan := { name := "first", kind := .handler [] }

/-- A flow of one step. -/
def exampleFlow : FlowPlan := { name := "example", steps := [exampleStep] }

/-- Services that answer null in no time. -/
def exampleServices : Services where
  clock _ := 0
  execute _ _ _ context := (.returned { result := some .null }, context.budget)
  validateFlowInput _ _ := .ok ()
  tables := Compiler.asciiTables

/-- A runner of that flow. -/
def exampleRunner : WorkflowRunner where
  plan := { name := "example", revision := "1", start := .flow "example", flows := [exampleFlow],
            nodup := List.nodup_singleton _ }
  limits := {}
  services := exampleServices
  deadline := 1

/-- An empty input. -/
def exampleEnvelope : AcceptedEnvelope := ⟨.obj [], [], Nat.zero_le _, Nat.zero_le _⟩

/-- The first step sees a placeholder for itself, not only the records of earlier steps. -/
theorem first_step_sees_placeholder :
    ¬ ∀ (r : WorkflowRunner) (call : FlowCall) (w : World),
      FlowShape r (collectionsOf r (MAX_COLLECTION_DEPTH - call.collectionDepth))
        (fun earlier _ => earlier) { call with stepId := none } w
        (executeFlow r { call with stepId := none } w).1.1
        (executeFlow r { call with stepId := none } w).2 := by
  intro hall
  obtain ⟨started, stop, w₁, shape, -⟩ :=
    (hall exampleRunner { flow := exampleFlow, envelope := exampleEnvelope } {}).steps
  exact absurd (shape.context (List.cons_ne_nil _ _)) (List.cons_ne_nil _ _)

end Foliqant.Core
