import Foliqant.Common.Fallible
import Foliqant.Common.Tally
import Foliqant.Evaluation.Metrics
import Foliqant.Evaluation.ScheduleRuns
import Mathlib.Data.Finset.Max
import Mathlib.Data.List.ReduceOption

/-!
# Metric counts are conserved

Valid gold gives every attempt exactly one observation, in one state, with labels of the catalog, unless
a field has to be compared by a text that cannot be written. So no count of a report loses an observation
or counts one twice, and the samples of a comparison add up to the report.
-/

namespace Foliqant.Evaluation

open Foliqant.Core JsonText

/-! ## Valid gold -/

variable {texts : Texts} {cases : List CheckedCase} {specs : List MetricSpec} {spec : MetricSpec}
  {case : CheckedCase} {check : Expectation}

/-- The only gold of a classification is a label of its catalog. -/
theorem labelsOf_classification (kind : spec.kind = .classification) {value : Json}
    {labels : Finset Label}
    (parsed : spec.labelsOf value = some labels) : ∃ label ∈ spec.labels, labels = {label} ∧
      (value = .null ∧ label = none ∨ ∃ own, value = .str own ∧ label = some own) := by
  unfold MetricSpec.labelsOf at parsed
  rw [kind] at parsed
  cases value with
  | str own =>
    dsimp only at parsed
    split at parsed
    · rename_i known
      cases parsed
      exact ⟨some own, known, rfl, .inr ⟨own, rfl, rfl⟩⟩
    · cases parsed
  | null =>
    dsimp only at parsed
    split at parsed
    · rename_i known
      cases parsed
      exact ⟨none, known, rfl, .inl ⟨rfl, rfl⟩⟩
    · cases parsed
  | _ => cases parsed

/-- What valid gold expects before a result is seen: for a classification one label of its catalog. -/
theorem expectedLabels_total {acceptable : Finset Label} (valid : spec.gold check = some acceptable) :
    ∃ expected, check.expectedLabels acceptable = .ok expected ∧
      (spec.kind = .classification → ∃ label ∈ spec.labels, expected = {label}) := by
  unfold MetricSpec.gold at valid
  unfold Expectation.expectedLabels
  by_cases alternatives : check.comparison = .oneOf
  · rw [if_neg (not_not.mpr alternatives)] at valid
    rw [if_pos alternatives]
    split at valid
    · rename_i golds kind expected
      obtain ⟨labels, parsed, -⟩ := Option.bind_eq_some_iff.mp valid
      have nonempty := check.accepts
      rw [alternatives, expected] at nonempty
      obtain ⟨_, same, nonempty⟩ := nonempty
      obtain rfl := Option.some.inj same
      obtain ⟨first, rest, rfl⟩ := List.exists_cons_of_ne_nil nonempty
      obtain ⟨own, -, first⟩ := (List.forall₂_of_mapM parsed).exists_of_mem_left List.mem_cons_self
      obtain ⟨label, known, -, shape⟩ := labelsOf_classification kind first
      refine ⟨{label}, ?_, fun _ => ⟨label, known, rfl⟩⟩
      have primary : check.primary = .ok label := by
        unfold Expectation.primary
        rw [expected]
        rcases shape with ⟨rfl, rfl⟩ | ⟨own, rfl, rfl⟩ <;> rfl
      rw [primary]
      rfl
    · cases valid
  · rw [if_pos alternatives] at valid
    rw [if_neg alternatives]
    refine ⟨acceptable, rfl, fun kind => ?_⟩
    obtain ⟨label, known, rfl, -⟩ := labelsOf_classification kind valid
    exact ⟨label, known, rfl⟩

/-- What is accepted about each metric. -/
theorem validateMetrics_spec (valid : validateMetrics cases specs = .ok ()) (mem : spec ∈ specs) :
    (if spec.kind = .fields then spec.validateFields cases else spec.validateLabels cases) =
    .ok () := by
  unfold validateMetrics at valid
  split at valid
  · cases valid
  · exact Except.forM_eq_ok.mp valid spec mem

/-- The gold of a validated metric has labels. -/
theorem gold_of_validated (kind : spec.kind ≠ .fields) (valid : validateMetrics cases specs = .ok ())
    (mem : spec ∈ specs) (among : case ∈ cases) {rest : List Expectation}
    (matching : spec.matching case = check :: rest) :
    ∃ acceptable, spec.gold check = some acceptable := by
  have own := validateMetrics_spec valid mem
  rw [if_neg kind] at own
  have one := Except.forM_eq_ok.mp own case among
  dsimp only at one
  split at one
  · cases one
  · rename_i fine
    rw [matching, not_or] at fine
    exact Option.ne_none_iff_exists'.mp fun none => fine.2 ⟨check, rfl, none⟩

/-- The gold of a validated field is compared without a scorer or a source. -/
theorem fieldGold_of_validated (kind : spec.kind = .fields)
    (valid : validateMetrics cases specs = .ok ())
    (mem : spec ∈ specs) (among : case ∈ cases) {entry : String × Expectation}
    (gold : entry ∈ spec.fieldGold case) : some entry.1 ∈ spec.labels ∧
      entry.2.comparison ∉ [.custom, .sourceSpan] := by
  obtain ⟨label, listed, found⟩ := List.mem_filterMap.mp gold
  obtain ⟨check, first, rfl⟩ := Option.map_eq_some_iff.mp found
  have known : some label ∈ spec.labels := List.reduceOption_mem_iff.mp listed
  refine ⟨known, ?_⟩
  have own := validateMetrics_spec valid mem
  rw [if_pos kind] at own
  unfold MetricSpec.validateFields at own
  split at own
  · cases own
  have one := Except.forM_eq_ok.mp (Except.forM_eq_ok.mp own case among) label listed
  dsimp only at one
  split at one
  · cases one
  · rename_i fine
    have own := List.find?_some first
    rw [not_or] at fine
    exact fun other => fine.2 ⟨check,
      List.mem_filter.mpr ⟨List.mem_of_find?_eq_some first, own⟩, .inl other⟩

/-! ## Observations -/

/-- An observation has labels of its catalog: one expected and one observed of a classification, and
outcomes of its fields unless it is excluded. -/
structure Catalogued (spec : MetricSpec) (value : MetricObservation) : Prop where
  plain : spec.kind ≠ .fields → value.fields = []
  single : spec.kind = .classification → value.state = .observed → ∃ gold ∈ spec.labels,
    ∃ predicted ∈ spec.labels, value.expected = {gold} ∧ value.actual = {predicted}
  states : spec.kind = .fields → value.state ≠ .abstained ∧ value.state ≠ .invalid
  held : spec.kind = .fields → value.state ≠ .excluded → value.fields ≠ []
  known : spec.kind = .fields → ∀ field ∈ value.fields, some field.field ∈ spec.labels

/-- An observation without a prediction and without fields. -/
theorem Catalogued.unobserved (kind : spec.kind ≠ .fields) (state : ObservationState)
    (expected : Finset Label)
    (other : state ≠ .observed) : Catalogued spec { state := state, expected := expected } where
  plain _ := rfl
  single _ same := absurd same other
  states own := absurd own kind
  held own := absurd own kind
  known own := absurd own kind

/-- Why a value is not there. -/
theorem unavailable_states {ownerStatus : Option String} {status : AttemptStatus}
    {state : ObservationState}
    (why : unavailable ownerStatus status = some state) : state = .skipped ∨ state = .error := by
  unfold unavailable at why
  split at why
  · exact .inl (Option.some.inj why).symm
  · split at why
    · exact .inr (Option.some.inj why).symm
    · cases why

/-- What is seen of a value. -/
theorem observeValue_sound (kind : spec.kind ≠ .fields) {acceptable expected : Finset Label}
    (own : spec.kind = .classification → ∃ label ∈ spec.labels, expected = {label}) (actual : Json) :
    Catalogued spec (spec.observeValue check acceptable expected actual) := by
  unfold MetricSpec.observeValue
  split
  · rename_i parsed found
    refine ⟨fun _ => rfl, fun classification _ => ?_, fun h => absurd h kind, fun h => absurd h kind,
      fun h => absurd h kind⟩
    obtain ⟨predicted, known, rfl, -⟩ := labelsOf_classification classification found
    obtain ⟨gold, listed, rfl⟩ := own classification
    dsimp only
    by_cases accepted : check.comparison = .oneOf ∧ ({predicted} : Finset Label) ⊆ acceptable
    · rw [if_pos accepted]
      exact ⟨predicted, known, predicted, known, rfl, rfl⟩
    · rw [if_neg accepted]
      exact ⟨gold, listed, predicted, known, rfl, rfl⟩
  · split
    · exact .unobserved kind .abstained expected nofun
    · exact .unobserved kind .invalid expected nofun

/-- What is seen where gold is. -/
theorem observeGold_sound (kind : spec.kind ≠ .fields) {acceptable expected : Finset Label}
    (own : spec.kind = .classification → ∃ label ∈ spec.labels, expected = {label}) (document : Json)
    (status : AttemptStatus) :
    Catalogued spec (spec.observeGold check acceptable expected document status) := by
  unfold MetricSpec.observeGold
  dsimp only
  split
  · rename_i state why
    refine .unobserved kind state expected ?_
    rcases unavailable_states why with rfl | rfl <;> decide
  · split
    · exact .unobserved kind .missing expected (by decide)
    · split
      · exact observeValue_sound kind own _
      · split
        · exact .unobserved kind .invalid expected (by decide)
        · exact observeValue_sound kind own _

/-- What is seen of the labels of a case. -/
theorem observeLabels_sound (kind : spec.kind ≠ .fields)
    (valid : validateMetrics cases specs = .ok ())
    (mem : spec ∈ specs) (among : case ∈ cases) (document : Json) (status : AttemptStatus) :
    ∃ value, spec.observeLabels case document status = .ok value ∧ Catalogued spec value := by
  unfold MetricSpec.observeLabels
  cases matching : spec.matching case with
  | nil => exact ⟨_, rfl, .unobserved kind .excluded ∅ nofun⟩
  | cons check rest =>
    obtain ⟨acceptable, gold⟩ := gold_of_validated kind valid mem among matching
    obtain ⟨expected, total, own⟩ := expectedLabels_total gold
    dsimp only
    rw [gold]
    exact ⟨_, Except.bind_eq_ok.mpr ⟨expected, total, rfl⟩,
      observeGold_sound kind own document status⟩

/-- The values that a comparison writes to compare them. -/
def Expectation.written (check : Expectation) (actual : Json) : List Json :=
  match check.comparison with
  | .exact => [actual, check.expected]
  | .oneOf => actual :: golds check.expected
  | .set =>
      match items actual with
      | some values => values ++ golds check.expected
      | none => []
  | .text | .contains | .sourceSpan | .custom => []

/-- A found value can be compared: nothing is written when a side is null, and otherwise no written
value has an integer with too many digits. -/
def Expectation.Writes (check : Expectation) (actual : Json) : Prop :=
  isNull check.expected = false → isNull actual = false →
    ∀ value ∈ check.written actual, Compiler.printable value = true

/-- Every field of a case that has to be compared can be. -/
def MetricSpec.Writes (spec : MetricSpec) (case : CheckedCase) (document : Json)
    (status : AttemptStatus) :
    Prop :=
  unavailable (documentPathStatus spec.path document) status = none →
    ∀ entry ∈ spec.fieldGold case, ∀ actual ∈ resolve (fieldPath spec.path entry.1) document true
      (documentPathStatus spec.path document) status, entry.2.Writes actual

/-- A value has a text when it can be printed. -/
theorem canonical_succeeds {value : Json} :
    (texts.canonical value).Succeeds ↔ Compiler.printable value = true := by
  unfold Texts.canonical
  by_cases short : Compiler.printable value = true
  · rw [if_pos short]
    exact iff_of_true (Except.succeeds_ok _) short
  · rw [if_neg short]
    exact iff_of_false (Except.not_succeeds_error _) short

/-- Several values have texts when all of them can be printed. -/
theorem mapM_canonical_succeeds {values : List Json} : (values.mapM texts.canonical).Succeeds ↔
    ∀ value ∈ values, Compiler.printable value = true :=
  List.succeeds_mapM.trans (forall₂_congr fun _ _ => canonical_succeeds)

/-- A built-in comparison succeeds when all that it writes can be printed. -/
theorem matches_succeeds (texts : Texts) (builtin : check.comparison ∉ [.custom, .sourceSpan])
    (actual caseInput : Json) : (check.matches texts actual caseInput).Succeeds ↔
      ∀ value ∈ check.written actual, Compiler.printable value = true := by
  unfold Expectation.matches Expectation.written
  cases kind : check.comparison with
  | sourceSpan => exact absurd (kind ▸ List.mem_cons_of_mem _ List.mem_cons_self) builtin
  | custom => exact absurd (kind ▸ List.mem_cons_self) builtin
  | text | contains => exact iff_of_true (Except.succeeds_ok _) nofun
  | exact =>
    rw [List.forall_mem_cons, List.forall_mem_singleton, ← @canonical_succeeds texts,
      ← @canonical_succeeds texts]
    exact Except.succeeds_bind fun _ _ => Except.succeeds_map
  | oneOf =>
    rw [List.forall_mem_cons, ← @canonical_succeeds texts, ← @mapM_canonical_succeeds texts]
    exact Except.succeeds_bind fun _ _ => Except.succeeds_map
  | set =>
    cases items actual with
    | none => exact iff_of_true (Except.succeeds_ok _) nofun
    | some values =>
      dsimp only
      rw [List.forall_mem_append, ← @mapM_canonical_succeeds texts, ← @mapM_canonical_succeeds texts]
      exact Except.succeeds_bind fun _ _ => Except.succeeds_map

/-- Null is null. -/
theorem isNull_iff {value : Json} : isNull value = true ↔ value = .null := by
  cases value <;> simp [isNull]

/-- The comparison of a field succeeds when a found value can be compared. -/
theorem fieldOutcome_succeeds (texts : Texts) (builtin : check.comparison ∉ [.custom, .sourceSpan])
    (found : Option Json) :
    (fieldOutcome texts check found).Succeeds ↔ ∀ actual ∈ found, check.Writes actual := by
  cases found with
  | none => exact iff_of_true (Except.succeeds_ok _) nofun
  | some actual =>
    simp only [Option.mem_some_iff, forall_eq']
    unfold fieldOutcome Expectation.Writes
    cases gold : isNull check.expected with
    | true =>
      rw [isNull_iff.mp gold]
      refine iff_of_true ?_ nofun
      cases actual <;> exact Except.succeeds_ok _
    | false =>
      cases value : isNull actual with
      | true =>
        rw [isNull_iff.mp value]
        refine iff_of_true ?_ nofun
        cases check.expected <;> exact Except.succeeds_ok _
      | false =>
        rw [forall_prop_of_true rfl, forall_prop_of_true rfl,
          ← matches_succeeds texts builtin actual .null]
        cases expected : check.expected with
        | null =>
          rw [expected] at gold
          cases gold
        | _ =>
          cases actual with
          | null => cases value
          | _ => exact Except.succeeds_map

/-- A field is observed when its comparison succeeds or nothing can be observed. -/
theorem observeField_succeeds (texts : Texts) {entry : String × Expectation}
    (builtin : entry.2.comparison ∉ [.custom, .sourceSpan]) (document : Json) (status : AttemptStatus)
    (ownerStatus : Option String) :
    (spec.observeField texts document status ownerStatus entry).Succeeds ↔
      (unavailable ownerStatus status = none →
        ∀ actual ∈ resolve (fieldPath spec.path entry.1) document true ownerStatus status,
          entry.2.Writes actual) := by
  refine (Except.succeeds_map (x := spec.outcome texts document status ownerStatus entry)).trans ?_
  unfold MetricSpec.outcome
  by_cases why : unavailable ownerStatus status = none
  · rw [if_neg (not_not.mpr why), forall_prop_of_true why]
    exact fieldOutcome_succeeds texts builtin _
  · rw [if_pos why]
    exact iff_of_true (Except.succeeds_ok _) fun none => absurd none why

/-- A field is seen under its name. -/
theorem observeField_name {entry : String × Expectation} {document : Json} {status : AttemptStatus}
    {ownerStatus : Option String} {field : FieldObservation}
    (observed : spec.observeField texts document status ownerStatus entry = .ok field) :
    field.field = entry.1 := by
  unfold MetricSpec.observeField at observed
  obtain ⟨outcome, -, same⟩ := Except.bind_eq_ok.mp observed
  cases same
  rfl

/-- A metric of fields observes a case when each field that has to be compared can be. -/
theorem observeFields_succeeds (texts : Texts) (kind : spec.kind = .fields)
    (valid : validateMetrics cases specs = .ok ()) (mem : spec ∈ specs) (among : case ∈ cases)
    (document : Json) (status : AttemptStatus) :
    (spec.observeFields texts case document status).Succeeds ↔ spec.Writes case document status := by
  have each := fun entry (gold : entry ∈ spec.fieldGold case) =>
    @observeField_succeeds spec texts entry
        (fieldGold_of_validated kind valid mem among gold).2 document
      status (documentPathStatus spec.path document)
  unfold MetricSpec.observeFields MetricSpec.Writes
  dsimp only
  by_cases empty : (spec.fieldGold case).isEmpty = true
  · rw [if_pos empty, List.isEmpty_iff.mp empty]
    exact iff_of_true (Except.succeeds_ok _) fun _ _ => nofun
  · rw [if_neg empty, Except.succeeds_map, List.succeeds_mapM]
    exact ⟨fun all why entry gold => (each entry gold).mp (all entry gold) why,
      fun all entry gold => (each entry gold).mpr fun why => all why entry gold⟩

/-- What a metric of fields observes. -/
theorem observeFields_sound (texts : Texts) (kind : spec.kind = .fields)
    (valid : validateMetrics cases specs = .ok ()) (mem : spec ∈ specs) (among : case ∈ cases)
    {document : Json} {status : AttemptStatus} {value : MetricObservation}
    (made : spec.observeFields texts case document status = .ok value) : Catalogued spec value := by
  unfold MetricSpec.observeFields at made
  dsimp only at made
  by_cases empty : (spec.fieldGold case).isEmpty = true
  · rw [if_pos empty] at made
    obtain rfl := Except.ok.inj made
    exact ⟨fun other => absurd kind other, fun other => absurd (kind.symm.trans other) nofun,
      fun _ => ⟨nofun, nofun⟩, fun _ other => absurd rfl other, fun _ => nofun⟩
  rw [if_neg empty] at made
  obtain ⟨outcomes, all, made⟩ := Except.bind_eq_ok.mp made
  replace all := List.mapM_eq_ok.mp all
  obtain rfl := Except.pure_eq_ok.mp made
  refine ⟨fun other => absurd kind other, fun other => absurd (kind.symm.trans other) nofun,
    fun _ => ?_, fun _ _ none => ?_, fun _ field held => ?_⟩
  · dsimp only
    split
    · rename_i state why
      rcases unavailable_states why with rfl | rfl
      · exact ⟨nofun, nofun⟩
      · exact ⟨nofun, nofun⟩
    · split
      · exact ⟨nofun, nofun⟩
      · exact ⟨nofun, nofun⟩
  · obtain rfl : outcomes = [] := none
    rw [List.forall₂_nil_right_iff.mp all] at empty
    exact empty rfl
  · obtain ⟨entry, gold, observed⟩ := all.exists_of_mem_right held
    rw [observeField_name observed]
    exact (fieldGold_of_validated kind valid mem among gold).1

/-- The metric observes a case: it has no fields to compare, or those that have to be compared can be. -/
def MetricSpec.Observes (spec : MetricSpec) (case : CheckedCase) (document : Json)
    (status : AttemptStatus) :
    Prop :=
  spec.kind = .fields → spec.Writes case document status

/-- A validated metric observes a case of its suite exactly when the fields that have to be compared can
be. -/
theorem observe_succeeds (texts : Texts) (valid : validateMetrics cases specs = .ok ())
    (mem : spec ∈ specs)
    (among : case ∈ cases) (document : Json) (status : AttemptStatus) :
    (spec.observe texts case document status).Succeeds ↔ spec.Observes case document status := by
  unfold MetricSpec.observe MetricSpec.Observes
  by_cases kind : spec.kind = .fields
  · rw [if_pos kind, forall_prop_of_true kind]
    exact observeFields_succeeds texts kind valid mem among document status
  · rw [if_neg kind]
    obtain ⟨value, made, -⟩ := observeLabels_sound kind valid mem among document status
    exact iff_of_true ⟨value, made⟩ fun own => absurd own kind

/-- What a validated metric observes has labels of its catalog. -/
theorem observe_sound (texts : Texts) (valid : validateMetrics cases specs = .ok ())
    (mem : spec ∈ specs)
    (among : case ∈ cases) {document : Json} {status : AttemptStatus} {value : MetricObservation}
    (made : spec.observe texts case document status = .ok value) : Catalogued spec value := by
  unfold MetricSpec.observe at made
  by_cases kind : spec.kind = .fields
  · rw [if_pos kind] at made
    exact observeFields_sound texts kind valid mem among made
  · rw [if_neg kind] at made
    obtain ⟨own, same, sound⟩ := observeLabels_sound kind valid mem among document status
    obtain rfl := Except.ok.inj (same.symm.trans made)
    exact sound

/-! ## Counts -/

/-- The diagonal of a matrix. -/
def diagonal (matrix : List (List ℕ)) : List ℕ := matrix.mapIdx fun i row => row.getD i 0

/-- The counts of a field. -/
def FieldCounts.components : List (FieldCounts → ℕ) :=
  [valueSupport, nullSupport, correctValue, correctNull, hallucinated, missed,
    wrongValue, unavailable]

/-- No count of a report loses an observation or counts one twice, and the samples add up to it. -/
structure Conserved (spec : MetricSpec) (values : List MetricObservation) (report : MetricReport)
    (attempts : ℕ) : Prop where
  attempted : report.support + report.excluded = values.length
  supported : report.observed + report.abstained + report.missing + report.skipped + report.errors +
    report.invalid = report.support
  confusion : spec.kind = .classification →
      (report.confusionMatrix.map List.sum).sum = report.observed ∧
    (diagonal report.confusionMatrix).sum = report.correct
  labelled : spec.kind ≠ .fields → report.perLabel.map LabelCounts.label = spec.labels
  oneVsRest : ∀ counts ∈ report.perLabel, counts.truePositive + counts.falsePositive +
    counts.falseNegative + counts.trueNegative = report.observed
  fielded : spec.kind = .fields → report.perField.map FieldCounts.label = spec.labels
  outcomes : ∀ counts ∈ report.perField,
      counts.correctValue + counts.correctNull + counts.hallucinated +
    counts.missed + counts.wrongValue + counts.unavailable = counts.support
  totalled : spec.kind = .fields → ∃ totals, report.fieldTotals = some totals ∧
    (∀ component ∈ FieldCounts.components, component totals = (report.perField.map component).sum) ∧
    (metricSamples values attempts true).sum =
      (totals.correctValue + totals.correctNull, totals.support)
  sampled : (metricSamples values attempts false).sum = (report.correct, report.support)

section Counts

variable {values : List MetricObservation}

/-- Every observation is in one state. -/
theorem sum_countState (values : List MetricObservation) :
    countState .observed values + countState .abstained values + countState .missing values +
      countState .skipped values + countState .error values + countState .invalid values +
      countState .excluded values = values.length := by
  have distinct : [ObservationState.observed, .abstained, .missing, .skipped, .error, .invalid,
      .excluded].Nodup := by
    decide
  rw [← Tally.sum_countP_key distinct MetricObservation.state fun value (_ : value ∈ values) => by
    cases value.state <;> decide]
  simp only [countState, List.map_cons, List.map_nil, List.sum_cons, List.sum_nil]
  omega

/-- The observed cases are counted. -/
theorem length_observed (values : List MetricObservation) :
    (observed values).length = countState .observed values :=
  (List.countP_eq_length_filter ..).symm

/-- The support leaves the excluded out. -/
theorem support_eq (values : List MetricObservation) :
    values.length - countState .excluded values = values.countP fun value =>
    value.state ≠ .excluded := by
  have split := List.length_eq_countP_add_countP
      (fun value : MetricObservation => decide (value.state = .excluded))
    (l := values)
  have others : (values.countP fun value => decide ¬ decide (value.state = .excluded) = true) =
      values.countP fun value => value.state ≠ .excluded := by
    simp
  rw [others] at split
  unfold countState
  omega

/-- A count among the included cases. -/
theorem countP_included (p : MetricObservation → Bool)
    (own : ∀ value, p value = true → value.state ≠ .excluded) :
    (included values).countP p = values.countP p := by
  rw [included, List.countP_filter]
  refine List.countP_congr fun value _ => ?_
  rw [Bool.and_eq_true, decide_eq_true_iff]
  exact ⟨And.left, fun holds => ⟨holds, own value holds⟩⟩

/-- Two tests of each entry split a list in four. -/
theorem sum_fourWays {α : Type} (p q : α → Prop) [DecidablePred p] [DecidablePred q]
    (entries : List α) :
    entries.countP (fun entry => p entry ∧ q entry) + entries.countP (fun entry => p entry ∧ ¬ q entry) +
      entries.countP (fun entry => ¬ p entry ∧ q entry) +
      entries.countP (fun entry => ¬ p entry ∧ ¬ q entry) = entries.length := by
  have distinct : [(true, true), (true, false), (false, true), (false, false)].Nodup := by decide
  rw [← Tally.sum_countP_key distinct (fun entry => (decide (p entry), decide (q entry)))
    fun entry (_ : entry ∈ entries) => by cases decide (p entry) <;> cases decide (q entry) <;> decide]
  simp only [Prod.mk.injEq, decide_eq_true_eq, decide_eq_false_iff_not, List.map_cons, List.map_nil,
    List.sum_cons, List.sum_nil]
  omega

/-- The cells of a row count the pairs that begin with its label, and each label has one cell on the
diagonal. -/
theorem confusion_sums {labels : List Label} (distinct : labels.Nodup) {pairs : List (Label × Label)}
    (known : ∀ pair ∈ pairs, pair.1 ∈ labels ∧ pair.2 ∈ labels) :
    ((labels.map fun gold => labels.map fun predicted => pairs.count (gold, predicted)).map
      List.sum).sum =
        pairs.length ∧
      (diagonal (labels.map fun gold => labels.map fun predicted => pairs.count
        (gold, predicted))).sum =
        pairs.countP fun pair => pair.1 = pair.2 := by
  constructor
  · have row (gold : Label) : (labels.map fun predicted => pairs.count (gold, predicted)).sum =
        pairs.countP fun pair => pair.1 = gold := by
      rw [← Tally.sum_countP distinct (fun pair => pair.1 = gold) Prod.snd
        fun pair mem _ => (known pair mem).2]
      refine congrArg List.sum (List.map_congr_left fun predicted _ => ?_)
      rw [List.count]
      refine List.countP_congr fun pair _ => ?_
      rw [beq_iff_eq, Bool.and_eq_true, decide_eq_true_iff, decide_eq_true_iff, Prod.ext_iff]
    rw [List.map_map]
    refine Eq.trans ?_ (Tally.sum_countP_key distinct Prod.fst fun pair mem => (known pair mem).1)
    exact congrArg List.sum (List.map_congr_left fun gold _ => row gold)
  · have cells : diagonal (labels.map fun gold => labels.map fun predicted => pairs.count
        (gold, predicted)) =
        labels.map fun label => pairs.count (label, label) := by
      unfold diagonal
      refine List.ext_getElem (by simp) fun i short _ => ?_
      have inside : i < labels.length := by simpa using short
      simp [inside]
    rw [cells, ← Tally.sum_countP distinct (fun pair => pair.1 = pair.2) Prod.fst
      fun pair mem _ => (known pair mem).1]
    refine congrArg List.sum (List.map_congr_left fun label _ => ?_)
    rw [List.count]
    refine List.countP_congr fun pair _ => ?_
    rw [beq_iff_eq, Bool.and_eq_true, decide_eq_true_iff, decide_eq_true_iff, Prod.ext_iff]
    exact ⟨fun same => ⟨same.1.trans same.2.symm, same.1⟩, fun same => ⟨same.2, same.1 ▸ same.2⟩⟩

/-- The counts of the fields, label by label. -/
theorem countP_fields {labels : List Label} (distinct : labels.Nodup) {fields : List FieldObservation}
    (known : ∀ field ∈ fields, some field.field ∈ labels) (p : FieldObservation → Bool) :
    (labels.map fun label => (fields.filter fun field => some field.field = label).countP p).sum =
      fields.countP p := by
  rw [← Tally.sum_countP distinct p
    (fun field => some field.field) fun field mem _ => known field mem]
  refine congrArg List.sum (List.map_congr_left fun label _ => ?_)
  rw [List.countP_filter]

/-- The counts of all fields are the sums over their labels. -/
theorem fieldCounts_components {labels : List Label} (distinct : labels.Nodup)
    {fields : List FieldObservation} (known : ∀ field ∈ fields, some field.field ∈ labels)
    {component : FieldCounts → ℕ} (mem : component ∈ FieldCounts.components) (total : Label) :
    component (fieldCounts total fields) = ((labels.map fun label =>
      fieldCounts label (fields.filter fun field => some field.field = label)).map
        component).sum := by
  rw [List.map_map]
  simp only [FieldCounts.components, List.mem_cons, List.not_mem_nil, or_false] at mem
  rcases mem with rfl | rfl | rfl | rfl | rfl | rfl | rfl | rfl
  all_goals exact (countP_fields distinct known _).symm

/-- Every gold value of a field is null or not. -/
theorem fieldCounts_support (label : Label) (fields : List FieldObservation) :
    (fieldCounts label fields).support = fields.length := by
  have gold := List.length_eq_countP_add_countP
    (fun field : FieldObservation => field.nullGold) (l := fields)
  simp only [Bool.not_eq_true, Bool.decide_eq_false] at gold
  simp only [fieldCounts, FieldCounts.support]
  omega

/-- Every gold value of a field has one of six outcomes. -/
theorem fieldCounts_outcomes (label : Label) (fields : List FieldObservation) :
    (fieldCounts label fields).correctValue + (fieldCounts label fields).correctNull +
      (fieldCounts label fields).hallucinated + (fieldCounts label fields).missed +
      (fieldCounts label fields).wrongValue + (fieldCounts label fields).unavailable =
      (fieldCounts label fields).support := by
  have distinct : [FieldOutcome.correctValue, .correctNull, .hallucinated, .missed, .wrongValue,
      .unavailable].Nodup := by
    decide
  have all := Tally.sum_countP_key distinct
      FieldObservation.outcome fun field (_ : field ∈ fields) => by
    cases field.outcome <;> decide
  rw [fieldCounts_support, ← all]
  simp only [fieldCounts, countOutcome, List.map_cons, List.map_nil, List.sum_cons, List.sum_nil]
  omega

/-- The correct fields. -/
theorem countP_correct (label : Label) (fields : List FieldObservation) :
    fields.countP (fun field => field.outcome.isCorrect) =
      (fieldCounts label fields).correctValue + (fieldCounts label fields).correctNull := by
  simp only [fieldCounts, countOutcome]
  induction fields with
  | nil => rfl
  | cons field rest ih =>
    simp only [List.countP_cons, ih]
    cases field.outcome <;> simp [FieldOutcome.isCorrect] <;> omega

/-! ## Samples -/

/-- The groups hold every value once. -/
theorem sum_groups {α : Type} (size : ℕ) (f : α → ℕ × ℕ) (values : List α) :
    ((groups size values).map fun group => (group.map f).sum).sum = (values.map f).sum := by
  induction values using groups.induct size with
  | case1 => rw [groups]; rfl
  | case2 first rest ih =>
    rw [groups, List.map_cons, List.sum_cons, ih, List.map_cons, List.sum_cons, add_assoc,
        ← List.sum_append,
      ← List.map_append, List.take_append_drop, List.map_cons, List.sum_cons]

/-- The sum of the samples. -/
theorem sum_metricSamples (values : List MetricObservation) (attempts : ℕ) (fields : Bool) :
    (metricSamples values attempts fields).sum = (values.map (MetricObservation.sample fields)).sum :=
  sum_groups attempts _ values

/-- The sampled fields are those of the observations that are not excluded. -/
theorem sum_fieldSamples (values : List MetricObservation) (label : Label) :
    (values.map (MetricObservation.sample true)).sum =
      ((fieldCounts label ((included values).flatMap MetricObservation.fields)).correctValue +
        (fieldCounts label ((included values).flatMap MetricObservation.fields)).correctNull,
        (fieldCounts label ((included values).flatMap MetricObservation.fields)).support) := by
  rw [← countP_correct, fieldCounts_support]
  induction values with
  | nil => rfl
  | cons value rest ih =>
    rw [List.map_cons, List.sum_cons, ih]
    by_cases excluded : value.state = .excluded
    · have rest_only : included (value :: rest) = included rest :=
        List.filter_cons_of_neg (by simpa using excluded)
      rw [rest_only, MetricObservation.sample, if_pos excluded]
      exact zero_add _
    · have whole : included (value :: rest) = value :: included rest :=
        List.filter_cons_of_pos (by simpa using excluded)
      rw [whole, MetricObservation.sample, if_neg excluded, if_pos rfl, List.flatMap_cons,
        List.countP_append, List.length_append]
      rfl

/-- The sampled attempts are the correct and the supported ones. -/
theorem sum_attemptSamples (values : List MetricObservation) (correct : MetricObservation → Bool)
    (agrees : ∀ value ∈ values, MetricObservation.sample false value =
      (if correct value then 1 else 0, if value.state ≠ .excluded then 1 else 0)) :
    (values.map (MetricObservation.sample false)).sum =
      (values.countP correct, values.length - countState .excluded values) := by
  rw [support_eq]
  induction values with
  | nil => rfl
  | cons value rest ih =>
    obtain ⟨own, others⟩ := List.forall_mem_cons.mp agrees
    rw [List.map_cons, List.sum_cons, ih others, own, List.countP_cons, List.countP_cons]
    ext
    · exact Nat.add_comm _ _
    · rw [Prod.snd_add]
      simp [Nat.add_comm]

/-- An excluded case has an empty sample. -/
theorem sample_excluded {value : MetricObservation} (excluded : value.state = .excluded) :
    MetricObservation.sample false value = (0, 0) := by
  rw [MetricObservation.sample, if_pos excluded]

/-- An attempt at fields is right when all of them are. -/
theorem Catalogued.sample_fields {value : MetricObservation} (sound : Catalogued spec value)
    (kind : spec.kind = .fields) : MetricObservation.sample false value =
      (if (decide (value.state = .observed) && value.fields.all (·.outcome.isCorrect)) then 1 else 0,
        if value.state ≠ .excluded then 1 else 0) := by
  by_cases excluded : value.state = .excluded
  · rw [sample_excluded excluded]
    simp [excluded]
  · rw [MetricObservation.sample, if_neg excluded, if_neg (by simp),
        if_neg (sound.held kind excluded),
      if_pos excluded]
    simp

/-- An attempt at labels is right when they are the expected ones. -/
theorem Catalogued.sample_labels {value : MetricObservation} (sound : Catalogued spec value)
    (kind : spec.kind ≠ .fields) : MetricObservation.sample false value =
      (if (decide (value.state = .observed) && decide (value.actual = value.expected)) then 1 else 0,
        if value.state ≠ .excluded then 1 else 0) := by
  by_cases excluded : value.state = .excluded
  · rw [sample_excluded excluded]
    simp [excluded]
  · rw [MetricObservation.sample, if_neg excluded, if_neg (by simp), if_pos (sound.plain kind),
      if_pos excluded]
    simp

/-! ## Reports -/

/-- A report about fields counts every case once. -/
theorem summarizeFields_conserved (kind : spec.kind = .fields)
    (sound : ∀ value ∈ values, Catalogued spec value) (attempts : ℕ) :
    Conserved spec values (spec.summarizeFields values attempts) attempts := by
  have known : ∀ field ∈ (included values).flatMap MetricObservation.fields,
      some field.field ∈ spec.labels := by
    intro field mem
    obtain ⟨value, among, held⟩ := List.mem_flatMap.mp mem
    exact (sound value (List.mem_filter.mp among).1).known kind field held
  have states := sum_countState values
  have abstained : countState .abstained values = 0 :=
    List.countP_eq_zero.mpr fun value mem => by simpa using ((sound value mem).states kind).1
  have invalid : countState .invalid values = 0 :=
    List.countP_eq_zero.mpr fun value mem => by simpa using ((sound value mem).states kind).2
  have observed : countState .observed (included values) = countState .observed values :=
    countP_included _ fun value own => by
      rw [decide_eq_true_iff] at own
      rw [own]
      exact nofun
  refine
    { attempted := ?_, supported := ?_,
        confusion := fun other => absurd (kind.symm.trans other) nofun,
      labelled := fun other => absurd kind other, oneVsRest := fun _ => nofun,
      fielded := fun _ => ?_, outcomes := fun counts mem => ?_, totalled := fun _ => ?_, sampled :=
        ?_ }
  · simp only [MetricSpec.summarizeFields]
    omega
  · simp only [MetricSpec.summarizeFields]
    omega
  · simp only [MetricSpec.summarizeFields, List.map_map]
    exact List.map_id spec.labels
  · obtain ⟨label, -, rfl⟩ := List.mem_map.mp mem
    exact fieldCounts_outcomes label _
  · refine ⟨_, rfl, fun component mem => fieldCounts_components spec.distinct known mem none, ?_⟩
    rw [sum_metricSamples]
    exact sum_fieldSamples values none
  · rw [sum_metricSamples, sum_attemptSamples values
      _ fun value mem => (sound value mem).sample_fields kind]
    refine Prod.ext ((countP_included _ fun value own => ?_).symm) rfl
    rw [Bool.and_eq_true, decide_eq_true_iff] at own
    rw [own.1]
    exact nofun

/-- The expected and the observed label of the observed attempts of a classification. -/
theorem confusion_pairs (order : Iteration) (kind : spec.kind = .classification)
    (sound : ∀ value ∈ values, Catalogued spec value) :
    ∀ value ∈ observed values, ∃ gold ∈ spec.labels, ∃ predicted ∈ spec.labels,
      value.expected = {gold} ∧ value.actual = {predicted} ∧ order.next value.expected = gold ∧
        order.next value.actual = predicted := by
  intro value mem
  obtain ⟨among, seen⟩ := List.mem_filter.mp mem
  obtain ⟨gold, listed, predicted, known, expected, actual⟩ :=
    (sound value among).single kind (of_decide_eq_true seen)
  have first (label : Label) : order.next {label} = label :=
    Finset.mem_singleton.mp (order.mem {label} (Finset.singleton_nonempty label))
  exact ⟨gold, listed, predicted, known, expected, actual, expected ▸ first gold,
    actual ▸ first predicted⟩

/-- A report about labels counts every case once. -/
theorem summarizeLabels_conserved (order : Iteration) (kind : spec.kind ≠ .fields)
    (sound : ∀ value ∈ values, Catalogued spec value) (attempts : ℕ) :
    Conserved spec values (spec.summarizeLabels order values attempts) attempts := by
  have states := sum_countState values
  have seen := length_observed values
  refine
    { attempted := ?_, supported := ?_, confusion := fun classification => ?_,
        labelled := fun _ => ?_,
      oneVsRest := fun counts mem => ?_, fielded := fun other => absurd other kind,
      outcomes := fun _ => nofun, totalled := fun other => absurd other kind, sampled := ?_ }
  · simp only [MetricSpec.summarizeLabels]
    omega
  · simp only [MetricSpec.summarizeLabels]
    omega
  -- a classification observes one label on each side, and both are in the catalog
  · have pairs := confusion_pairs order classification sound
    simp only [MetricSpec.summarizeLabels, if_pos classification, MetricSpec.confusion]
    have catalog : ∀ pair ∈ (observed values).map fun value =>
        (order.next value.expected, order.next value.actual),
        pair.1 ∈ spec.labels ∧ pair.2 ∈ spec.labels := by
      intro pair mem
      obtain ⟨value, among, rfl⟩ := List.mem_map.mp mem
      obtain ⟨gold, listed, predicted, known, -, -, first, second⟩ := pairs value among
      exact ⟨first ▸ listed, second ▸ known⟩
    obtain ⟨all, cells⟩ := confusion_sums spec.distinct catalog
    refine ⟨all.trans (List.length_map _), cells.trans ?_⟩
    rw [List.countP_map]
    refine List.countP_congr fun value mem => ?_
    obtain ⟨gold, -, predicted, -, expected, actual, first, second⟩ := pairs value mem
    rw [Function.comp_apply, first, second, expected, actual, decide_eq_true_iff, decide_eq_true_iff,
      Finset.singleton_inj, eq_comm]
  · simp only [MetricSpec.summarizeLabels, List.map_map]
    exact List.map_id spec.labels
  · obtain ⟨label, -, rfl⟩ := List.mem_map.mp mem
    exact sum_fourWays (fun value : MetricObservation => label ∈ value.actual)
      (fun value => label ∈ value.expected) (observed values)
  · rw [sum_metricSamples, sum_attemptSamples values
      _ fun value mem => (sound value mem).sample_labels kind]
    refine Prod.ext ?_ rfl
    simp only [MetricSpec.summarizeLabels, observed, List.countP_filter]
    exact List.countP_congr fun value _ => by rw [Bool.and_comm]

/-- A report counts every case once. -/
theorem summarize_conserved (order : Iteration) (sound : ∀ value ∈ values, Catalogued spec value)
    (attempts : ℕ) : Conserved spec values (spec.summarize order values attempts) attempts := by
  unfold MetricSpec.summarize
  by_cases kind : spec.kind = .fields
  · rw [if_pos kind]
    exact summarizeFields_conserved kind sound attempts
  · rw [if_neg kind]
    exact summarizeLabels_conserved order kind sound attempts

end Counts

/-- The metrics of a suite observe a case exactly when each of them does. -/
theorem observeMetrics_succeeds (texts : Texts) (valid : validateMetrics cases specs = .ok ())
    (among : case ∈ cases) (document : Json) (status : AttemptStatus) :
    (observeMetrics texts specs case document status).Succeeds ↔
      ∀ spec ∈ specs, spec.Observes case document status :=
  List.succeeds_mapM.trans (forall₂_congr fun _ mem => observe_succeeds texts valid mem
    among document status)

/-- The metrics give one observation each, with labels of their catalogs. -/
theorem observeMetrics_sound (texts : Texts) (valid : validateMetrics cases specs = .ok ())
    (among : case ∈ cases) {document : Json} {status : AttemptStatus}
    {values : List MetricObservation}
    (made : observeMetrics texts specs case document status = .ok values) :
    List.Forall₂ Catalogued specs values := by
  have all := List.mapM_eq_ok.mp made
  rw [List.forall₂_iff_get] at all ⊢
  exact ⟨all.1, fun i before before' =>
    observe_sound texts valid (List.get_mem specs ⟨i, before⟩) among (all.2 i before before')⟩

/-- The observations of one metric are those of its column. -/
theorem column_sound {observations : List (List MetricObservation)}
    (sound : ∀ values ∈ observations, List.Forall₂ Catalogued specs values) {index : ℕ}
    (here : specs[index]? = some spec) : ∃ values, column observations index = .ok values ∧
      values.length = observations.length ∧ ∀ value ∈ values, Catalogued spec value := by
  have each : ∀ case ∈ observations, ∃ value, case[index]? = some value ∧ Catalogued spec value :=
    fun case mem => (sound case mem).getElem?_left here
  obtain ⟨values, all⟩ := List.exists_forall₂ each
  refine ⟨values, List.mapM_eq_ok.mpr (all.imp fun case value own => ?_), all.length_eq.symm,
    fun value mem => ?_⟩
  · rw [own.1]
  · obtain ⟨case, -, own⟩ := all.exists_of_mem_right mem
    exact own.2

/-- The metrics observe every result of a list, and the report of each metric conserves what it observed. -/
def MetricsConserve (texts : Texts) (order : Iteration) (specs : List MetricSpec)
    (results : List (CheckedCase × Json × AttemptStatus)) (attempts : ℕ) : Prop :=
  ∃ observations reports,
    results.mapM (fun result => observeMetrics texts specs result.1 result.2.1 result.2.2) =
        .ok observations ∧
      summarizeMetrics order specs observations attempts = .ok reports ∧
      reports.length = specs.length ∧
      ∀ index spec report, specs[index]? = some spec → reports[index]? = some report →
        ∃ values, column observations index = .ok values ∧ values.length = results.length ∧
          Conserved spec values report attempts

/-- Whatever the cases of a suite gave, the metrics observe and count all of it, exactly when they can
compare the fields that have to be compared. -/
theorem metrics_conserved_iff (texts : Texts) (order : Iteration)
    (valid : validateMetrics cases specs = .ok ())
    {results : List (CheckedCase × Json × AttemptStatus)}
    (among : ∀ result ∈ results, result.1 ∈ cases) (attempts : ℕ) :
    MetricsConserve texts order specs results attempts ↔
      ∀ result ∈ results, ∀ spec ∈ specs, spec.Observes result.1 result.2.1 result.2.2 := by
  have observes := fun (result : CheckedCase × Json × AttemptStatus) (mem : result ∈ results) =>
    observeMetrics_succeeds texts valid (among result mem) result.2.1 result.2.2
  constructor
  · rintro ⟨observations, -, made, -⟩ result mem
    rw [← observes result mem]
    exact List.succeeds_mapM.mp ⟨observations, made⟩ result mem
  intro all
  obtain ⟨observations, observed⟩ :=
    List.succeeds_mapM.mpr fun result mem => (observes result mem).mpr (all result mem)
  have all := List.mapM_eq_ok.mp observed
  have sound : ∀ values ∈ observations, List.Forall₂ Catalogued specs values := by
    intro values mem
    obtain ⟨result, here, own⟩ := all.exists_of_mem_right mem
    exact observeMetrics_sound texts valid (among result here) own
  -- the columns, and with them the reports, exist
  have reported : ∀ entry ∈ specs.zipIdx, ∃ report,
      (∃ values, column observations entry.2 = .ok values ∧
      values.length = results.length ∧ Conserved entry.1 values report attempts) ∧
      (do
        let values ← column observations entry.2
        return entry.1.summarize order values attempts) = Except.ok report := by
    rintro ⟨spec, index⟩ mem
    obtain ⟨values, made, length, own⟩ := column_sound sound (List.mem_zipIdx_iff_getElem?.mp mem)
    exact ⟨_, ⟨values, made, length.trans all.length_eq.symm, summarize_conserved order own attempts⟩,
      Except.bind_eq_ok.mpr ⟨values, made, rfl⟩⟩
  obtain ⟨reports, made⟩ := List.exists_forall₂ reported
  refine ⟨observations, reports, observed, List.mapM_eq_ok.mpr (made.imp fun _ _ => And.right), ?_,
    fun index spec report here there => ?_⟩
  · rw [← made.length_eq, List.length_zipIdx]
  · have entry : specs.zipIdx[index]? = some (spec, index) := by
      rw [List.getElem?_zipIdx, here]
      simp
    obtain ⟨own, same, conserved, -⟩ := made.getElem?_left entry
    rw [there] at same
    exact Option.some.inj same ▸ conserved

/-- The least label first. -/
def leastFirst : Iteration where
  next labels := (@Finset.min (WithBot String) _ labels).untopD none
  mem labels nonempty := by
    obtain ⟨label, least⟩ := @Finset.min_of_nonempty (WithBot String) _ labels nonempty
    rw [least]
    exact @Finset.mem_of_min (WithBot String) _ labels label least

/-- Texts without cases. -/
def plainTexts : Texts where
  floats := exactFloats
  casefold := id

/-- A metric about labels. -/
def colourMetric : MetricSpec where
  name := "colour"
  path := "/payload/colour"
  kind := .classification
  labels := [some "red", some "blue", none]
  named := ⟨rfl, by decide⟩
  pointer := rfl
  projected := by decide
  selected := by decide
  nonempty := List.cons_ne_nil _ _
  catalog := by decide
  null_label := by decide
  distinct := by decide

/-- A metric about fields. -/
def sizeMetric : MetricSpec where
  name := "size"
  path := "/payload"
  kind := .fields
  labels := [some "size"]
  named := ⟨rfl, by decide⟩
  pointer := rfl
  projected := by decide
  selected := by decide
  nonempty := List.cons_ne_nil _ _
  catalog := by decide
  null_label := by decide
  distinct := by decide

/-- An empty object is not too deep. -/
theorem colour_depth : depth (.obj [] : Json) ≤ MAX_JSON_DEPTH := by decide

/-- The gold of the size. -/
def sizeCheck : Expectation where
  name := "size"
  path := "/payload/size"
  expected := .int 1
  comparison := .exact
  pointer := rfl
  accepts := trivial
  projects := nofun
  scored := by decide

/-- Either colour will do, and the size is one. -/
def colourCase : CheckedCase where
  id := "case"
  payload := .obj []
  metadata := []
  payload_depth := colour_depth
  metadata_depth := colour_depth
  expectations := [
    { name := "colour", path := "/payload/colour", expected := .arr [.str "red", .str "blue"],
      comparison := .oneOf, pointer := rfl, accepts := ⟨_, rfl, List.cons_ne_nil _ _⟩, projects :=
        nofun,
      scored := by decide },
    sizeCheck]

/-- The metrics fit the case. -/
theorem colour_metrics : validateMetrics [colourCase] [colourMetric, sizeMetric] = .ok () := rfl

/-- The completed case with a blue result of some size. -/
def sized (size : ℤ) : CheckedCase × Json × AttemptStatus :=
  (colourCase, .obj [("payload", .obj [("colour", .str "blue"), ("size", .int size)])], .completed)

/-- The metric of the size observes what it can write. -/
theorem sizeMetric_observes (size : ℤ) :
    sizeMetric.Observes (sized size).1 (sized size).2.1 (sized size).2.2 ↔
      Compiler.shortInt size = true := by
  have gold : sizeMetric.fieldGold (sized size).1 = [("size", sizeCheck)] := rfl
  have open_ : unavailable (documentPathStatus sizeMetric.path (sized size).2.1) (sized size).2.2 =
    none := rfl
  have found : resolve (fieldPath sizeMetric.path "size") (sized size).2.1 true
      (documentPathStatus sizeMetric.path (sized size).2.1) (sized size).2.2 = some (.int size) := rfl
  have kind : sizeMetric.kind = .fields := rfl
  unfold MetricSpec.Observes MetricSpec.Writes
  rw [forall_prop_of_true kind, forall_prop_of_true open_, gold, List.forall_mem_singleton, found]
  simp only [Option.mem_some_iff, forall_eq']
  have null : isNull (.int size) = false := rfl
  have null' : isNull sizeCheck.expected = false := rfl
  have small : Compiler.shortInt 1 = true := by decide
  unfold Expectation.Writes
  rw [forall_prop_of_true null', forall_prop_of_true null]
  simp [Expectation.written, sizeCheck, Compiler.printable, small]

/-- A size with few digits is observed and counted. -/
theorem colours_conserved :
    MetricsConserve plainTexts leastFirst [colourMetric, sizeMetric] [sized 2] 1 := by
  refine (metrics_conserved_iff plainTexts leastFirst colour_metrics
    (List.forall_mem_singleton.mpr List.mem_cons_self) 1).mpr ?_
  simp only [List.forall_mem_cons, List.not_mem_nil, false_imp_iff, implies_true, and_true]
  exact ⟨nofun, (sizeMetric_observes 2).mpr (by decide)⟩

/-- A size with too many digits leaves the valid metrics without a report. -/
theorem huge_size_unreported : validateMetrics [colourCase] [colourMetric, sizeMetric] = .ok () ∧
    ¬ MetricsConserve plainTexts leastFirst [colourMetric, sizeMetric]
      [sized (10 ^ Compiler.MAX_INT_DIGITS)] 1 := by
  refine ⟨colour_metrics, ?_⟩
  rintro ⟨observations, -, made, -⟩
  have one := List.succeeds_mapM.mp ⟨observations, made⟩ _ (List.mem_singleton_self _)
  have each := (observeMetrics_succeeds plainTexts colour_metrics List.mem_cons_self _ _).mp one
  have short := (sizeMetric_observes _).mp
    (each sizeMetric (List.mem_cons_of_mem _ (List.mem_singleton_self _)))
  rw [Compiler.shortInt_power] at short
  cases short

end Foliqant.Evaluation
