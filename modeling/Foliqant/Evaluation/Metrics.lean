import Foliqant.Compiler.JsonEquality
import Foliqant.Core.StepBudget
import Foliqant.Evaluation.PathStatus
import Foliqant.Evaluation.Schedule
import Foliqant.Evaluation.Spans

/-!
# Metrics

A metric compares the results of cases with their gold. Every attempt is observed once, and the report
counts the observations; the comparison of two reports counts them again for each source case. Rates
are exact quotients. A comparison writes what it compares, which fails at an integer with too many digits.
-/

namespace Foliqant.Evaluation

open Foliqant.Core JsonText

/-! ## Expectations -/

/-- How an expected value is compared with the actual one. -/
inductive Comparison where
  | exact | set | oneOf | text | contains | sourceSpan | custom
  deriving DecidableEq

/-- The texts that comparisons use: the numbers of canonical JSON, and Unicode case folding. -/
structure Texts where
  floats : Floats ℚ
  casefold : String → String

/-- Case folding with every run of whitespace as one space, trimmed. -/
def Texts.normalized (texts : Texts) (value : String) : String :=
  " ".intercalate ((((texts.casefold value).toList.splitOnP isBlankChar).filter (· ≠ [])).map
    String.ofList)

/-- The text is not empty once it is stripped. -/
def nonBlank (text : String) : Bool := text.toList.any fun c => !isBlankChar c

/-- The items of a list. -/
def items : Json → Option (List Json)
  | .arr items => some items
  | _ => none

/-- A text. -/
def isString : Json → Bool
  | .str _ => true
  | _ => false

/-- The gold that a comparison accepts. -/
def AcceptsGold (expected : Json) : Comparison → Prop
  | .set => ∃ gold, items expected = some gold
  | .oneOf => ∃ gold, items expected = some gold ∧ gold ≠ []
  | .text | .contains => isString expected = true
  | .sourceSpan => ∃ span, sourceSpan expected = .ok span
  | .exact | .custom => True

/-- One assertion on the public result. The alternatives of `oneOf` are distinct and the gold of
`contains` is not blank, too, which nothing here depends on. -/
structure Expectation where
  name : String
  path : String
  expected : Json
  comparison : Comparison := .exact
  scorer : Option String := none
  each : Option String := none
  absentAsNull : Bool := false
  pointer : pointerValid path = true
  accepts : AcceptsGold expected comparison
  projects : each ≠ none → comparison ∈ [.exact, .set, .oneOf, .custom]
  scored : scorer ≠ none ↔ comparison = .custom

/-- A case with its assertions. -/
structure CheckedCase extends EvaluationCase where
  expectations : List Expectation

/-- The value at a relative pointer of every item of an array; there is none if one has none. -/
def project (actual : Json) (each : String) : Option Json := do
  let values ← items actual
  let projected ← values.mapM fun item => (resolveBinding item (.pointer each none)).toOption
  return .arr projected

/-- The gold alternatives or elements of an array. -/
def golds (expected : Json) : List Json := (items expected).getD []

/-- The interpreter refuses to write an integer with more digits than it prints. -/
def digitsMessage : String := "Exceeds the limit (4300 digits) for integer string conversion"

/-- The canonical text of a value. -/
def Texts.canonical (texts : Texts) (value : Json) : Except String (List Char) :=
  if Compiler.printable value then .ok (Evaluation.canonical texts.floats value)
  else .error digitsMessage

/-- Compare an observed value with gold. -/
def Expectation.matches (texts : Texts) (expectation : Expectation) (actual caseInput : Json) :
    Except String Bool :=
  match expectation.comparison with
  | .sourceSpan => matchesSourceSpan actual expectation.expected caseInput
  | .set =>
      match items actual with
      | some values => do
          let values ← values.mapM texts.canonical
          let gold ← (golds expectation.expected).mapM texts.canonical
          return values.toFinset = gold.toFinset
      | none => .ok false
  | .oneOf => do
      let value ← texts.canonical actual
      let gold ← (golds expectation.expected).mapM texts.canonical
      return gold.contains value
  | .text =>
      .ok (match actual, expectation.expected with
        | .str actual, .str expected => texts.normalized actual = texts.normalized expected
        | _, _ => false)
  | .contains =>
      .ok (match actual, expectation.expected with
        | .str actual, .str expected =>
            (TextSearch.find (texts.normalized actual).toList (texts.normalized expected).toList 0
              (texts.normalized actual).length).isSome
        | _, _ => false)
  | .custom => .error "custom comparisons require their registered scorer"
  | .exact => do
      let value ← texts.canonical actual
      let gold ← texts.canonical expectation.expected
      return value = gold

/-! ## Specifications -/

/-- Kinds of metrics. -/
inductive MetricKind where
  | classification | multilabel | fields
  deriving DecidableEq

/-- A label of a catalog; null is one of classification only. -/
abbrev Label := Option String

/-- A metric of an evaluation. -/
structure MetricSpec where
  name : String
  path : String
  kind : MetricKind
  labels : List Label
  each : Option String := none
  expectation : Option String := none
  named : nonBlank name = true ∧ name.length ≤ 512
  pointer : pointerValid path = true
  projected : ∀ own ∈ each, own ≠ "" ∧ pointerValid own = true ∧ kind ≠ .fields
  selected : ∀ own ∈ expectation, nonBlank own = true ∧ kind ≠ .fields
  nonempty : labels ≠ []
  catalog : ∀ label ∈ labels, ∀ own ∈ label, nonBlank own = true
  null_label : none ∈ labels → kind = .classification
  distinct : labels.Nodup

/-- The pointer of one field below a metric. -/
def fieldPath (path field : String) : String := path ++ "/" ++ token field

/-- The labels that a value stands for. -/
def MetricSpec.labelsOf (spec : MetricSpec) (value : Json) : Option (Finset Label) :=
  match spec.kind, value with
  | .classification, .str label => if some label ∈ spec.labels then some {some label} else none
  | .classification, .null => if none ∈ spec.labels then some {none} else none
  | .classification, _ => none
  | _, .arr values =>
      if ∀ value ∈ values, isString value = true ∧ text (some value) ∈ spec.labels then
        some (values.map fun value => text (some value)).toFinset
      else none
  | _, _ => none

/-- The gold labels of an assertion; `oneOf` lists acceptable labels. -/
def MetricSpec.gold (spec : MetricSpec) (check : Expectation) : Option (Finset Label) :=
  if check.comparison ≠ .oneOf then spec.labelsOf check.expected
  else
    match spec.kind, check.expected with
    | .classification, .arr alternatives => do
        let labels ← alternatives.mapM spec.labelsOf
        return labels.foldl (· ∪ ·) ∅
    | _, _ => none

/-- The first of the alternatives, or the only gold. -/
def Expectation.primary (check : Expectation) : Except String Label :=
  match check.expected with
  | .arr (.str label :: _) | .str label => .ok (some label)
  | .arr (.null :: _) | .null => .ok none
  | .arr [] => .error "tuple index out of range"
  | _ => .error "AssertionError"

/-- The expectations of a case that a metric is about. -/
def MetricSpec.matching (spec : MetricSpec) (case : CheckedCase) : List Expectation :=
  case.expectations.filter fun check => check.path = spec.path ∧ check.each = spec.each ∧
    (spec.expectation = none ∨ some check.name = spec.expectation)

/-- The first assertion on each field of the catalog. -/
def MetricSpec.fieldGold (spec : MetricSpec) (case : CheckedCase) : List (String × Expectation) :=
  spec.labels.reduceOption.filterMap fun label =>
    (case.expectations.find? fun check => check.path = fieldPath spec.path label).map (label, ·)

/-- The gold of a field is at most one built-in assertion without a projection. -/
def MetricSpec.validateFields (spec : MetricSpec) (cases : List CheckedCase) : Except String Unit :=
  if none ∈ spec.labels then .error "fields metric labels must be field names"
  else cases.forM fun case => spec.labels.reduceOption.forM fun label =>
    let checks := case.expectations.filter fun check => check.path = fieldPath spec.path label
    if checks.length > 1 ∨ ∃ check ∈ checks, check.comparison ∈ [.custom, .sourceSpan] ∨
        check.each ≠ none then
      .error "fields metric gold must be one built-in, unprojected field assertion"
    else .ok ()

/-- Every gold value of the cases is a label of the metric. -/
def MetricSpec.validateLabels (spec : MetricSpec) (cases : List CheckedCase) : Except String Unit :=
  cases.forM fun case =>
    let checks := spec.matching case
    if checks.length > 1 ∨ ∃ check ∈ checks.head?, spec.gold check = none then
      .error "metric gold must be unambiguous and match its label catalog"
    else .ok ()

/-- Metrics have unique names and fit their cases. -/
def validateMetrics (cases : List CheckedCase) (specs : List MetricSpec) : Except String Unit :=
  if ¬ (specs.map MetricSpec.name).Nodup then .error "metric names must be unique"
  else specs.forM fun spec =>
    if spec.kind = .fields then spec.validateFields cases else spec.validateLabels cases

/-! ## Observations -/

/-- What became of one case for a metric. -/
inductive ObservationState where
  | observed | excluded | abstained | missing | skipped | error | invalid
  deriving DecidableEq

/-- What became of one field. -/
inductive FieldOutcome where
  | correctValue | correctNull | hallucinated | missed | wrongValue | unavailable
  deriving DecidableEq

/-- The outcome of one field and whether its gold is null. -/
structure FieldObservation where
  field : String
  outcome : FieldOutcome
  nullGold : Bool

/-- What a metric saw in one case. -/
structure MetricObservation where
  state : ObservationState
  expected : Finset Label := ∅
  actual : Finset Label := ∅
  fields : List FieldObservation := []

/-- The word for a status. -/
def AttemptStatus.value : AttemptStatus → String
  | .completed => "completed"
  | .needsReview => "needs_review"
  | .failed => "failed"
  | .cancelled => "cancelled"
  | .error => "error"

/-- The value at a path, if there is one; an absent value is null only inside an executed owner. -/
def resolve (path : String) (document : Json) (absentAsNull : Bool) (ownerStatus : Option String)
    (status : AttemptStatus) : Option Json :=
  match resolveBinding document (.pointer path none) with
  | .ok value => some value
  | .error _ =>
      let executed :=
        if ownerStatus ≠ none ∨ "/flows/".toList <+: path.toList then
          ownerStatus ∈ EXECUTED_STATUSES.map fun status => some status.value
        else status ∈ EXECUTED_STATUSES
      if absentAsNull = true ∧ executed then some .null else none

/-- Why nothing can be observed: the record around the path was skipped, or it or the run failed. -/
def unavailable (ownerStatus : Option String) (status : AttemptStatus) : Option ObservationState :=
  if ownerStatus = some "skipped" then some .skipped
  else if status.isFailure = true ∨ ownerStatus ∈ [some "failed", some "cancelled"] then some .error
  else none

/-- The outcome of an available field: a field that the result omits is null. -/
def fieldOutcome (texts : Texts) (check : Expectation) : Option Json → Except String FieldOutcome
  | none => .ok .unavailable
  | some actual =>
      match check.expected, actual with
      | .null, .null => .ok .correctNull
      | .null, _ => .ok .hallucinated
      | _, .null => .ok .missed
      | _, _ => do return if ← check.matches texts actual .null then .correctValue else .wrongValue

/-- The value null. -/
def isNull : Json → Bool
  | .null => true
  | _ => false

/-- The outcome of a field, unless nothing can be observed. -/
def MetricSpec.outcome (texts : Texts) (spec : MetricSpec) (document : Json) (status : AttemptStatus)
    (ownerStatus : Option String) (gold : String × Expectation) : Except String FieldOutcome :=
  if unavailable ownerStatus status ≠ none then .ok .unavailable
  else fieldOutcome texts gold.2
    (resolve (fieldPath spec.path gold.1) document true ownerStatus status)

/-- One expected field in a document. -/
def MetricSpec.observeField (texts : Texts) (spec : MetricSpec) (document : Json)
    (status : AttemptStatus)
    (ownerStatus : Option String) (gold : String × Expectation) : Except String FieldObservation := do
  let outcome ← spec.outcome texts document status ownerStatus gold
  return { field := gold.1, outcome := outcome, nullGold := isNull gold.2.expected }

/-- The expected fields in a document. -/
def MetricSpec.observeFields (texts : Texts) (spec : MetricSpec)
    (case : CheckedCase) (document : Json)
    (status : AttemptStatus) : Except String MetricObservation :=
  let gold := spec.fieldGold case
  if gold.isEmpty then .ok { state := .excluded }
  else do
    let ownerStatus := documentPathStatus spec.path document
    let outcomes ← gold.mapM (spec.observeField texts document status ownerStatus)
    let state :=
      match unavailable ownerStatus status with
      | some state => state
      | none => if ∀ field ∈ outcomes, field.outcome = .unavailable then .missing else .observed
    return { state := state, fields := outcomes }

/-- Observe a value that is there: an accepted alternative counts as its label. -/
def MetricSpec.observeValue (spec : MetricSpec) (check : Expectation)
    (acceptable expected : Finset Label)
    (actual : Json) : MetricObservation :=
  match spec.labelsOf actual with
  | some parsed =>
      { state := .observed, actual := parsed,
        expected := if check.comparison = .oneOf ∧ parsed ⊆ acceptable then parsed else expected }
  | none => { state := if isNull actual then .abstained else .invalid, expected := expected }

/-- The expected labels in a document. -/
def MetricSpec.observeGold (spec : MetricSpec) (check : Expectation)
    (acceptable expected : Finset Label)
    (document : Json) (status : AttemptStatus) : MetricObservation :=
  let ownerStatus := documentPathStatus spec.path document
  match unavailable ownerStatus status with
  | some state => { state := state, expected := expected }
  | none =>
      match resolve spec.path document check.absentAsNull ownerStatus status with
      | none => { state := .missing, expected := expected }
      | some actual =>
          match spec.each with
          | none => spec.observeValue check acceptable expected actual
          | some each =>
              match project actual each with
              | none => { state := .invalid, expected := expected }
              | some actual => spec.observeValue check acceptable expected actual

/-- What a check expects before the result is seen: the first alternative, or the gold. -/
def Expectation.expectedLabels (check : Expectation) (acceptable : Finset Label) :
    Except String (Finset Label) :=
  if check.comparison = .oneOf then do return {← check.primary} else .ok acceptable

/-- The labels of a case, if it has gold for them. -/
def MetricSpec.observeLabels (spec : MetricSpec) (case : CheckedCase) (document : Json)
    (status : AttemptStatus) : Except String MetricObservation :=
  match spec.matching case with
  | [] => .ok { state := .excluded }
  | check :: _ =>
      match spec.gold check with
      | none => .error "AssertionError"
      | some acceptable => do
          let expected ← check.expectedLabels acceptable
          return spec.observeGold check acceptable expected document status

/-- What a metric sees in one case. -/
def MetricSpec.observe (texts : Texts) (spec : MetricSpec) (case : CheckedCase) (document : Json)
    (status : AttemptStatus) : Except String MetricObservation :=
  if spec.kind = .fields then spec.observeFields texts case document status
  else spec.observeLabels case document status

/-- One observation for each metric; the document of an attempt without a result is null. -/
def observeMetrics (texts : Texts) (specs : List MetricSpec) (case : CheckedCase) (document : Json)
    (status : AttemptStatus) : Except String (List MetricObservation) :=
  specs.mapM fun spec => spec.observe texts case document status

/-! ## Reports -/

/-- Rates of the observed; none has an undefined denominator. -/
structure RateSummary where
  precision : Option ℚ := none
  recallRate : Option ℚ := none
  f1 : Option ℚ := none

/-- A part of a whole that is not empty. -/
def quotient (part whole : ℕ) : Option ℚ := if whole = 0 then none else some (part / whole)

/-- Precision, recall and F1 of counts. -/
def rates (tp fp fn : ℕ) : RateSummary where
  precision := quotient tp (tp + fp)
  recallRate := quotient tp (tp + fn)
  f1 := quotient (2 * tp) (2 * tp + fp + fn)

/-- One-vs-rest counts among the observed. -/
structure LabelCounts where
  label : Label
  truePositive : ℕ
  falsePositive : ℕ
  falseNegative : ℕ
  trueNegative : ℕ

/-- The rates of one label. -/
def LabelCounts.rates (counts : LabelCounts) : RateSummary :=
  Evaluation.rates counts.truePositive counts.falsePositive counts.falseNegative

/-- The outcomes of one field, or of all. -/
structure FieldCounts where
  label : Label
  valueSupport : ℕ
  nullSupport : ℕ
  correctValue : ℕ
  correctNull : ℕ
  hallucinated : ℕ
  missed : ℕ
  wrongValue : ℕ
  unavailable : ℕ

/-- The fields with gold. -/
def FieldCounts.support (counts : FieldCounts) : ℕ := counts.valueSupport + counts.nullSupport

/-- The correct part of the fields. -/
def FieldCounts.accuracy (counts : FieldCounts) : Option ℚ :=
  quotient (counts.correctValue + counts.correctNull) counts.support

/-- The part of the null fields that got a value. -/
def FieldCounts.hallucinationRate (counts : FieldCounts) : Option ℚ :=
  quotient counts.hallucinated counts.nullSupport

/-- The part of the fields with a value that got none. -/
def FieldCounts.missRate (counts : FieldCounts) : Option ℚ :=
  quotient counts.missed counts.valueSupport

/-- The report of a metric. -/
structure MetricReport where
  name : String
  path : String
  kind : MetricKind
  labels : List Label
  support : ℕ
  excluded : ℕ
  observed : ℕ
  abstained : ℕ
  missing : ℕ
  skipped : ℕ
  errors : ℕ
  invalid : ℕ
  correct : ℕ
  accuracy : Option ℚ
  coverage : Option ℚ
  confusionMatrix : List (List ℕ) := []
  perLabel : List LabelCounts := []
  micro : RateSummary := {}
  macroRates : RateSummary := {}
  sourceSupport : ℕ := 0
  sourceExcluded : ℕ := 0
  attempts : ℕ := 1
  each : Option String := none
  expectation : Option String := none
  perField : List FieldCounts := []
  fieldTotals : Option FieldCounts := none
  fieldAccuracy : Option ℚ := none
  macroFieldAccuracy : Option ℚ := none

/-- The cases in a state. -/
def countState (state : ObservationState) (values : List MetricObservation) : ℕ :=
  values.countP fun value => value.state = state

/-- A field that is as expected. -/
def FieldOutcome.isCorrect (outcome : FieldOutcome) : Bool :=
  outcome = .correctValue ∨ outcome = .correctNull

/-- The fields with an outcome. -/
def countOutcome (outcome : FieldOutcome) (outcomes : List FieldObservation) : ℕ :=
  outcomes.countP fun field => field.outcome = outcome

/-- The counts of one field. -/
def fieldCounts (label : Label) (outcomes : List FieldObservation) : FieldCounts where
  label := label
  valueSupport := outcomes.countP fun field => !field.nullGold
  nullSupport := outcomes.countP fun field => field.nullGold
  correctValue := countOutcome .correctValue outcomes
  correctNull := countOutcome .correctNull outcomes
  hallucinated := countOutcome .hallucinated outcomes
  missed := countOutcome .missed outcomes
  wrongValue := countOutcome .wrongValue outcomes
  unavailable := countOutcome .unavailable outcomes

/-- The observations that are not excluded. -/
def included (values : List MetricObservation) : List MetricObservation :=
  values.filter fun value => value.state ≠ .excluded

/-- The cases that were observed. -/
def observed (values : List MetricObservation) : List MetricObservation :=
  values.filter fun value => value.state = .observed

/-- The report of a metric about fields. -/
def MetricSpec.summarizeFields (spec : MetricSpec) (values : List MetricObservation) (attempts : ℕ) :
    MetricReport :=
  let excluded := countState .excluded values
  let support := values.length - excluded
  let fields := (included values).flatMap MetricObservation.fields
  let perField := spec.labels.map fun label =>
    fieldCounts label (fields.filter fun field => some field.field = label)
  let totals := fieldCounts none fields
  let correct := (included values).countP fun value =>
    value.state = .observed && value.fields.all (·.outcome.isCorrect)
  let observed := countState .observed (included values)
  let accuracies := (perField.map FieldCounts.accuracy).reduceOption
  { name := spec.name, path := spec.path, kind := spec.kind, labels := spec.labels,
    support := support, excluded := excluded, observed := observed, abstained := 0,
    missing := countState .missing values, skipped := countState .skipped values,
    errors := countState .error values, invalid := 0, correct := correct,
    accuracy := quotient correct support, coverage := quotient observed support,
    sourceSupport := support / attempts, sourceExcluded := excluded / attempts, attempts := attempts,
    perField := perField, fieldTotals := some totals, fieldAccuracy := totals.accuracy,
    macroFieldAccuracy := if accuracies = [] then none
    else some (accuracies.sum / accuracies.length) }

/-- The iteration order of sets, which the language leaves open. -/
structure Iteration where
  next : Finset Label → Label
  mem : ∀ labels, labels.Nonempty → next labels ∈ labels

/-- The mean of rates that are all defined. -/
def macroRate (values : List (Option ℚ)) : Option ℚ :=
  let known := values.reduceOption
  if known.length = values.length then some (known.sum / values.length) else none

/-- Rows are expected labels, columns are observed ones. -/
def MetricSpec.confusion (order : Iteration) (spec : MetricSpec) (values : List MetricObservation) :
    List (List ℕ) :=
  let pairs := (observed values).map fun value => (order.next value.expected, order.next value.actual)
  spec.labels.map fun gold => spec.labels.map fun predicted => pairs.count (gold, predicted)

/-- The counts of one label. -/
def labelCounts (values : List MetricObservation) (label : Label) : LabelCounts where
  label := label
  truePositive := (observed values).countP fun value => label ∈ value.actual ∧ label ∈ value.expected
  falsePositive := (observed values).countP fun value => label ∈ value.actual ∧ label ∉ value.expected
  falseNegative := (observed values).countP fun value => label ∉ value.actual ∧ label ∈ value.expected
  trueNegative := (observed values).countP fun value => label ∉ value.actual ∧ label ∉ value.expected

/-- The report of a metric about labels. -/
def MetricSpec.summarizeLabels (order : Iteration) (spec : MetricSpec)
    (values : List MetricObservation)
    (attempts : ℕ) : MetricReport :=
  let excluded := countState .excluded values
  let support := values.length - excluded
  let correct := (observed values).countP fun value => value.actual = value.expected
  let perLabel := spec.labels.map (labelCounts values)
  { name := spec.name, path := spec.path, kind := spec.kind, labels := spec.labels,
    support := support, excluded := excluded, observed := (observed values).length,
    abstained := countState .abstained values, missing := countState .missing values,
    skipped := countState .skipped values, errors := countState .error values,
    invalid := countState .invalid values, correct := correct,
    accuracy := quotient correct support, coverage := quotient (observed values).length support,
    confusionMatrix := if spec.kind = .classification then spec.confusion order values else [],
    perLabel := perLabel,
    micro := rates (perLabel.map LabelCounts.truePositive).sum
        (perLabel.map LabelCounts.falsePositive).sum
      (perLabel.map LabelCounts.falseNegative).sum,
    macroRates := {
      precision := macroRate (perLabel.map (·.rates.precision)),
      recallRate := macroRate (perLabel.map (·.rates.recallRate)), f1 :=
        macroRate (perLabel.map (·.rates.f1)) },
    sourceSupport := support / attempts, sourceExcluded := excluded / attempts, attempts := attempts,
    each := spec.each, expectation := spec.expectation }

/-- The report of a metric. -/
def MetricSpec.summarize (order : Iteration) (spec : MetricSpec) (values : List MetricObservation)
    (attempts : ℕ) : MetricReport :=
  if spec.kind = .fields then spec.summarizeFields values attempts
  else spec.summarizeLabels order values attempts

/-- The observations of one metric. -/
def column (observations : List (List MetricObservation)) (index : ℕ) :
    Except String (List MetricObservation) :=
  observations.mapM fun case =>
    match case[index]? with
    | some value => .ok value
    | none => .error "tuple index out of range"

/-- The reports of all metrics. -/
def summarizeMetrics (order : Iteration) (specs : List MetricSpec)
    (observations : List (List MetricObservation)) (attempts : ℕ) :
    Except String (List MetricReport) :=
  specs.zipIdx.mapM fun entry => do
    let values ← column observations entry.2
    return entry.1.summarize order values attempts

/-! ## The samples of a comparison -/

/-- What one observation adds to the correct and the supported of its source case: attempts, or the
fields of attempts. -/
def MetricObservation.sample (fields : Bool) (value : MetricObservation) : ℕ × ℕ :=
  if value.state = .excluded then (0, 0)
  else if fields then (value.fields.countP (·.outcome.isCorrect), value.fields.length)
  else
    let right :=
      if value.fields = [] then decide (value.actual = value.expected)
      else value.fields.all (·.outcome.isCorrect)
    (if value.state = .observed ∧ right = true then 1 else 0, 1)

/-- The consecutive groups of a size; the last may be shorter. A group is never empty. -/
def groups {α : Type} (size : ℕ) : List α → List (List α)
  | [] => []
  | first :: rest => (first :: rest.take (size - 1)) :: groups size (rest.drop (size - 1))
  termination_by values => values.length

/-- The correct and the supported of each source case, with its attempts in a row. -/
def metricSamples (values : List MetricObservation) (attempts : ℕ) (fields : Bool) : List (ℕ × ℕ) :=
  (groups attempts values).map fun group => (group.map (MetricObservation.sample fields)).sum

end Foliqant.Evaluation
