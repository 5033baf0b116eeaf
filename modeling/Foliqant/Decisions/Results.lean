import Foliqant.Common.JsonCodec
import Foliqant.Decisions.Contracts

/-!
# Decision results

The JSON contract of decision results. A result is read only when its answer agrees with its
answerability, and `validateDecisionOutput` checks the results of a task against its questions and
sources.
-/

namespace Foliqant.Decisions

open Foliqant.Core JsonText

/-! ## Values -/

variable {α : Type}

/-- An identifier. -/
def idCodec : Codec ℚ Id := Codec.text.refine _

/-- A text that is not empty. -/
def nonEmptyCodec : Codec ℚ NonEmptyStr := Codec.text.refine _

/-- A reason. -/
def reasonCodec : Codec ℚ Reason := Codec.text.refine _

/-- A bounded list without duplicates. -/
def uniqueCodec [DecidableEq α] (codec : Codec ℚ α) (bound : ℕ) : Codec ℚ (UniqueList α bound) :=
  codec.list.refine _

/-- A bounded list. -/
def boundedCodec (codec : Codec ℚ α) (bound : ℕ) : Codec ℚ (BoundedList α bound) :=
  codec.list.refine _

/-- Whether a question can be answered. -/
def statusCodec : Codec ℚ AnswerabilityStatus :=
  .names [.answerable, .partiallyAnswerable, .notAnswerable, .undetermined] AnswerabilityStatus.value
    (by intro status; cases status <;> rfl)

/-- An issue of a question. -/
def issueCodec : Codec ℚ DecisionIssue :=
  .names [.noSupportedAnswer, .conflictingInformation, .multipleValidOptions] DecisionIssue.value
    (by intro issue; cases issue <;> rfl)

/-- Whether a question can be answered, with its issues. -/
def answerabilityCodec : Codec ℚ Answerability :=
  ((Fields.one "status" statusCodec).both (.one "issues" (uniqueCodec issueCodec 3))
    (by decide)).closed.iso (fun (status, issues) => ⟨status, issues⟩)
    (fun answerability => (answerability.status, answerability.issues)) (fun _ => rfl)

/-- How well the sources support the whole assessment. -/
inductive EvidenceStrength where
  | limited | strong
  deriving DecidableEq

/-- The word for a strength. -/
def EvidenceStrength.value : EvidenceStrength → String
  | limited => "limited"
  | strong => "strong"

/-- The strength of the evidence. -/
def strengthCodec : Codec ℚ EvidenceStrength :=
  .names [.limited, .strong] EvidenceStrength.value (by intro strength; cases strength <;> rfl)

/-! ## Answers -/

/-- A record with one member. -/
def recordOf (key : String) (codec : Codec ℚ α) : Codec ℚ α := (Fields.one key codec).closed

/-- A record is not null. -/
theorem recordOf_ne_null (key : String) (codec : Codec ℚ α) (a : α) :
    (recordOf key codec).encode a ≠ .null := nofun

/-- The chosen option, or none. -/
def choiceAnswerCodec : Codec ℚ (Option Id) :=
  (recordOf "optionId" idCodec).nullable (recordOf_ne_null _ _)

/-- The chosen options, or none. -/
def multiselectAnswerCodec : Codec ℚ (Option (UniqueList Id 1024)) :=
  (recordOf "optionIds" (uniqueCodec idCodec 1024)).nullable (recordOf_ne_null _ _)

/-- The value of a predicate. -/
def predicateAnswerCodec : Codec ℚ PredicateValue :=
  recordOf "value" (.names [.yes, .no, .unknown] PredicateValue.value
    (by intro value; cases value <;> rfl))

/-- The chosen level, or none. -/
def ordinalAnswerCodec : Codec ℚ (Option Id) :=
  (recordOf "levelId" idCodec).nullable (recordOf_ne_null _ _)

/-- The members of a request. -/
def unitFields : Fields ℚ (Id × UnitStatus × Option Id × Option NonEmptyStr × NonEmptyStr) :=
  (Fields.one "id" idCodec).both
    ((Fields.one "status" (.names [.active, .withdrawn, .conditional, .quoted] UnitStatus.value
      (by intro status; cases status <;> rfl))).both
    ((Fields.one "categoryId" (idCodec.nullable fun _ => nofun)).both
    ((Fields.one "subject" (nonEmptyCodec.nullable fun _ => nofun)).both
      (.one "description" nonEmptyCodec) (by decide)) (by decide)) (by decide)) (by decide)

/-- A request. -/
def unitCodec : Codec ℚ RequestUnit :=
  unitFields.closed.iso
    (fun (id, status, categoryId, subject, description) =>
      ⟨id, status, categoryId, subject, description⟩)
    (fun unit => (unit.id, unit.status, unit.categoryId, unit.subject, unit.description))
    (fun _ => rfl)

/-- A record with its type. -/
def typed (type : String) (fields : Fields ℚ α) (apart : ∀ key ∈ fields.keys, key ∉ ["type"]) :
    Fields ℚ (Unit × α) :=
  (Fields.one "type" (.constant type)).both fields apart

/-- The members of a request that depends on a predicate. -/
def conditionalFields : Fields ℚ (Unit × Id × Id × Bool) :=
  typed "conditional_on" ((Fields.one "requestId" idCodec).both
    ((Fields.one "predicateQuestionId" idCodec).both (.one "requiredValue"
      (.names [true, false] requiredValue (by intro value; cases value <;> rfl))) (by decide))
    (by decide)) (by decide)

/-- The members of a request that requires another. -/
def requiresFields : Fields ℚ (Unit × Id × Id) :=
  typed "requires" ((Fields.one "requestId" idCodec).both (.one "requiredRequestId" idCodec)
    (by decide)) (by decide)

/-- The members of a request that comes before another. -/
def precedesFields : Fields ℚ (Unit × Id × Id) :=
  typed "precedes" ((Fields.one "beforeRequestId" idCodec).both (.one "afterRequestId" idCodec)
    (by decide)) (by decide)

/-- The members of requests of which one at most holds. -/
def exclusiveFields : Fields ℚ (Unit × { ids : UniqueList Id 64 // 2 ≤ ids.1.length }) :=
  typed "mutually_exclusive" (.one "requestIds" ((uniqueCodec idCodec 64).refine _)) (by decide)

/-- The relations by their type; their keys differ. -/
def relationSum :=
  conditionalFields.closed.either (requiresFields.closed.either
    (precedesFields.closed.either exclusiveFields.closed
      (Fields.closed_apart "requestIds" (by decide) (by decide)))
    (by
      rintro (_ | _)
      · exact Fields.closed_apart "beforeRequestId" (by decide) (by decide) _
      · exact Fields.closed_apart "requestIds" (by decide) (by decide) _))
    (by
      rintro (_ | _ | _)
      · exact Fields.closed_apart "requiredRequestId" (by decide) (by decide) _
      · exact Fields.closed_apart "beforeRequestId" (by decide) (by decide) _
      · exact Fields.closed_apart "requestIds" (by decide) (by decide) _)

/-- A relation between requests. -/
def relationCodec : Codec ℚ RequestRelation :=
  relationSum.iso
    (fun
      | .inl (_, request, predicate, required) => .conditionalOn request predicate required
      | .inr (.inl (_, request, required)) => .requires request required
      | .inr (.inr (.inl (_, first, last))) => .precedes first last
      | .inr (.inr (.inr (_, ids))) => .mutuallyExclusive ids)
    (fun
      | .conditionalOn request predicate required => .inl ((), request, predicate, required)
      | .requires request required => .inr (.inl ((), request, required))
      | .precedes first last => .inr (.inr (.inl ((), first, last)))
      | .mutuallyExclusive ids => .inr (.inr (.inr ((), ids))))
    (by intro relation; cases relation <;> rfl)

/-- The requests with their relations, or none. -/
def requestUnitsCodec : Codec ℚ (Option RequestUnitsAnswer) :=
  (((Fields.one "units" (boundedCodec unitCodec 256)).both
    (.one "relations" (boundedCodec relationCodec 256)) (by decide)).closed.iso
    (fun (units, relations) => ⟨units, relations⟩) (fun answer => (answer.units, answer.relations))
    (fun _ => rfl)).nullable (fun _ => nofun)

/-- An answer as JSON, without its type. -/
def Answer.encode : Answer → Json
  | choice answer => choiceAnswerCodec.encode answer
  | multiselect answer => multiselectAnswerCodec.encode answer
  | predicate value => predicateAnswerCodec.encode value
  | ordinal answer => ordinalAnswerCodec.encode answer
  | requestUnits answer => requestUnitsCodec.encode answer

/-- Read an answer as the type of its result says. -/
def Answer.decode (type : String) (value : Json) : Option Answer :=
  if type = "choice" then (choiceAnswerCodec.decode value).map .choice
  else if type = "multiselect" then (multiselectAnswerCodec.decode value).map .multiselect
  else if type = "predicate" then (predicateAnswerCodec.decode value).map .predicate
  else if type = "ordinal" then (ordinalAnswerCodec.decode value).map .ordinal
  else if type = "request_units" then (requestUnitsCodec.decode value).map .requestUnits
  else none

/-- An answer of its type reads back. -/
theorem Answer.decode_encode (answer : Answer) :
    Answer.decode answer.type.value answer.encode = some answer := by
  cases answer with
  | choice answer => exact congrArg (Option.map _) (choiceAnswerCodec.roundtrip answer)
  | multiselect answer => exact congrArg (Option.map _) (multiselectAnswerCodec.roundtrip answer)
  | predicate value => exact congrArg (Option.map _) (predicateAnswerCodec.roundtrip value)
  | ordinal answer => exact congrArg (Option.map _) (ordinalAnswerCodec.roundtrip answer)
  | requestUnits answer => exact congrArg (Option.map _) (requestUnitsCodec.roundtrip answer)

/-- The members of an answer with its type. -/
def answerFields : Fields ℚ Answer :=
  .tagged "type" "answer" (by decide) (fun answer => answer.type.value) Answer.encode Answer.decode
    Answer.decode_encode

/-! ## Results -/

/-- The members of a result. -/
structure ResultFields where
  questionId : Id
  answerability : Answerability
  reason : Reason
  evidenceStrength : Option EvidenceStrength
  answer : Answer

/-- What its answerability says against a result. -/
def ResultFields.problems (result : ResultFields) (place : String) : List String :=
  validateAnswerability place result.answer.type result.answerability result.answer.present
    result.answer.predicateValue

/-- A result whose answer agrees with its answerability. -/
abbrev DecisionResult := { result : ResultFields // result.problems "result" = [] }

/-- The members of a result. -/
def resultFields :
    Fields ℚ (Id × Answerability × Reason × Option EvidenceStrength × Answer) :=
  (Fields.one "questionId" idCodec).both
    ((Fields.one "answerability" answerabilityCodec).both
    ((Fields.one "reason" reasonCodec).both
    ((Fields.one "evidence_strength" (strengthCodec.nullable fun _ => nofun)).both
      answerFields (by decide)) (by decide)) (by decide)) (by decide)

/-- A result whose members agree. -/
def resultCodec : Codec ℚ DecisionResult :=
  (resultFields.closed.iso
    (fun (questionId, answerability, reason, evidenceStrength, answer) =>
      (⟨questionId, answerability, reason, evidenceStrength, answer⟩ : ResultFields))
    (fun result => (result.questionId, result.answerability, result.reason, result.evidenceStrength,
      result.answer)) (fun _ => rfl)).refine _

/-- The results of a decision. -/
abbrev DecisionOutput :=
  { results : List DecisionResult // 1 ≤ results.length ∧ results.length ≤ 256 }

/-- The results of a decision. -/
def outputCodec : Codec ℚ DecisionOutput := recordOf "results" (resultCodec.list.refine _)

/-! ## The results of a task -/

/-- The text of an allowed source has the subject as a part. -/
def subjectInSource (task : DecisionInput) (question : Question) (subject : NonEmptyStr) : Bool :=
  question.allowedSourceIds.any fun id =>
    ((task.sources.find? fun source => source.id = id).map fun source =>
      decide (subject.1.toList <:+: source.text.1.toList)).getD false

/-- Check one requested item against the catalog and the sources. -/
def unitProblems (task : DecisionInput) (question : Question) (catalog : List DecisionOption)
    (allowNoMatch : Bool) (place : String) (unit : RequestUnit) : List String :=
  problemsOf [
    (unit.categoryId.isNone && !allowNoMatch, place ++ ":no-match-forbidden"),
    (unit.categoryId.any fun category => decide (category ∉ catalog.map DecisionOption.id),
      place ++ ":unknown-category"),
    (unit.subject.any fun subject => !subjectInSource task question subject,
      place ++ ":subject-not-in-source")]

/-- The questions that ask for a predicate. -/
def predicateIds (task : DecisionInput) : List Id :=
  (task.questions.filter fun question => question.kind.type = .predicate).map Question.id

/-- Check the answer to a question of its type. -/
def answerProblems (task : DecisionInput) (question : Question) (place : String)
    (answerability : Answerability) (answer : Answer) : List String :=
  match question.kind, answer with
  | .choice options, .choice (some option) =>
      problemsOf [(decide (option ∉ options.map DecisionOption.id), place ++ ":unknown-option")]
  | .multiselect options minSelections maxSelections, .multiselect (some selected) =>
      problemsOf [
        (selected.1.any fun option => decide (option ∉ options.map DecisionOption.id),
          place ++ ":unknown-option"),
        (answerability.status == .partiallyAnswerable && selected.1.isEmpty,
          place ++ ":partial-answer-empty"),
        (!(minSelections ≤ selected.1.length && selected.1.length ≤ maxSelections),
          place ++ ":selection-cardinality")]
  | .ordinal levels, .ordinal (some level) =>
      problemsOf [(decide (level ∉ levels.map DecisionOption.id), place ++ ":unknown-level")]
  | .requestUnits catalog allowNoMatch, .requestUnits (some answer) =>
      problemsOf [
        (answerability.status == .partiallyAnswerable && answer.units.1.isEmpty,
          place ++ ":partial-answer-empty"),
        ((answer.units.1.any fun unit => unit.categoryId.isNone) &&
            decide (.noSupportedAnswer ∉ answerability.issues.1),
          place ++ ":null-category-without-no-supported-answer-issue"),
        (!decide (answer.units.1.map RequestUnit.id).Nodup, place ++ ":duplicate-request-unit")] ++
      (answer.units.1.flatMap fun unit =>
        unitProblems task question catalog allowNoMatch (place ++ ":request:" ++ unit.id.1) unit) ++
      validateRequestRelations place (answer.units.1.map RequestUnit.id) (predicateIds task)
        answer.relations.1
  | _, _ => []

/-- Check one result; `seen` are the questions of the earlier ones. -/
def resultProblems (task : DecisionInput) (seen : List Id) (item : ResultFields) : List String :=
  let place := "question:" ++ item.questionId.1
  problemsOf [(decide (item.questionId ∈ seen), place ++ ":duplicate-result")] ++
  match task.questions.find? fun question => question.id = item.questionId with
  | none => [place ++ ":unknown-question"]
  | some question =>
      if item.answer.type ≠ question.kind.type then [place ++ ":type-mismatch"]
      else item.problems place ++
        answerProblems task question place item.answerability item.answer

/-- The problems of each result, given the questions answered before. -/
def resultsProblems (task : DecisionInput) : List Id → List ResultFields → List String
  | _, [] => []
  | seen, item :: rest =>
      resultProblems task seen item ++ resultsProblems task (item.questionId :: seen) rest

/-- The questions without a result. -/
def missingProblems (task : DecisionInput) (results : List ResultFields) : List String :=
  ((task.questions.map Question.id).filter (· ∉ results.map ResultFields.questionId)).map fun id =>
    "question:" ++ id.1 ++ ":missing-result"

/-- Check the structure of the results and the subjects they quote; the problems are sorted. -/
def validateDecisionOutput (task : DecisionInput) (results : List ResultFields) : List String :=
  (resultsProblems task [] results ++ missingProblems task results).dedup.mergeSort

end Foliqant.Decisions
