import Foliqant.Common.DepthFirst
import Foliqant.Core.Execution

/-!
# Decision contracts

Typed questions over the sources of a decision, the answers to them and their answerability, with the
rules that relate an answer to its answerability and the relations between requests.
-/

namespace Foliqant.Decisions

open Foliqant.Core

/-! ## Scalars -/

/-- A letter or digit. -/
def isAlphanumeric (c : Char) : Bool := isUpper c || isLower c || isDigit c

/-- `[A-Za-z0-9][A-Za-z0-9._-]{0,127}`. -/
def isId (text : String) : Bool :=
  match text.toList with
  | [] => false
  | first :: rest =>
      isAlphanumeric first && rest.length ≤ 127 &&
        rest.all fun c => isAlphanumeric c || ['.', '_', '-'].contains c

/-- Identifiers of questions, options and requests. -/
abbrev Id := { text : String // isId text = true }

instance : LawfulBEq Id := inferInstance

/-- Texts that are not empty. -/
abbrev NonEmptyStr := { text : String // text ≠ "" }

/-- Whitespace of a pattern. -/
def isSpace (c : Char) : Bool :=
  (9 ≤ c.toNat && c.toNat ≤ 13) ||
    [0x20, 0x85, 0xA0, 0x1680, 0x2028, 0x2029, 0x202F, 0x205F, 0x3000].contains c.toNat ||
    (0x2000 ≤ c.toNat && c.toNat ≤ 0x200A)

/-- A text that is not blank, of at most 2000 characters. -/
def isReason (text : String) : Bool :=
  1 ≤ text.length && text.length ≤ 2000 && text.toList.any fun c => !isSpace c

/-- The reason for an answer. -/
abbrev Reason := { text : String // isReason text = true }

/-- A list of bounded length without repetition. -/
abbrev UniqueList (α : Type) (bound : ℕ) := { items : List α // items.length ≤ bound ∧ items.Nodup }

/-- Lists of a bounded length. -/
abbrev BoundedList (α : Type) (bound : ℕ) := { items : List α // items.length ≤ bound }

/-! ## Questions -/

/-- A text that answers may rest on. -/
structure DecisionSource where
  id : Id
  text : NonEmptyStr

/-- An option of a question. -/
structure DecisionOption where
  id : Id
  description : NonEmptyStr
  deriving DecidableEq

/-- Types of questions. -/
inductive QuestionType where
  | choice | multiselect | predicate | ordinal | requestUnits
  deriving DecidableEq

/-- The word for a type. -/
def QuestionType.value : QuestionType → String
  | choice => "choice"
  | multiselect => "multiselect"
  | predicate => "predicate"
  | ordinal => "ordinal"
  | requestUnits => "request_units"

/-- What a question asks for. -/
inductive QuestionKind where
  | choice (options : List DecisionOption)
  | multiselect (options : List DecisionOption) (minSelections maxSelections : ℕ)
  | predicate
  | ordinal (levels : List DecisionOption)
  | requestUnits (catalog : List DecisionOption) (allowNoMatch : Bool)

/-- The type of a question. -/
def QuestionKind.type : QuestionKind → QuestionType
  | choice _ => .choice
  | multiselect _ _ _ => .multiselect
  | predicate => .predicate
  | ordinal _ => .ordinal
  | requestUnits _ _ => .requestUnits

/-- The options, levels or categories that answers may name. -/
def QuestionKind.options : QuestionKind → List DecisionOption
  | choice options => options
  | multiselect options _ _ => options
  | predicate => []
  | ordinal levels => levels
  | requestUnits catalog _ => catalog

/-- How many options a question has. -/
def QuestionKind.optionBounds : QuestionKind → ℕ × ℕ
  | choice _ => (2, 1024)
  | multiselect _ _ _ => (1, 1024)
  | predicate => (0, 0)
  | ordinal _ => (2, 128)
  | requestUnits _ _ => (0, 1024)

/-- Unique options within the bounds, and a cardinality they can meet. -/
def QuestionKind.Valid (kind : QuestionKind) : Prop :=
  kind.optionBounds.1 ≤ kind.options.length ∧ kind.options.length ≤ kind.optionBounds.2 ∧
    (kind.options.map DecisionOption.id).Nodup ∧
    match kind with
    | .multiselect options minSelections maxSelections =>
        1 ≤ maxSelections ∧ minSelections ≤ maxSelections ∧ maxSelections ≤ options.length
    | _ => True

instance (kind : QuestionKind) : Decidable kind.Valid := by
  unfold QuestionKind.Valid
  cases kind <;> infer_instance

/-- A question of a decision. -/
structure Question where
  id : Id
  prompt : NonEmptyStr
  criteria : List NonEmptyStr
  allowedSourceIds : List Id
  kind : QuestionKind
  criteria_valid : 1 ≤ criteria.length ∧ criteria.length ≤ 64 ∧ criteria.Nodup
  sources_valid : 1 ≤ allowedSourceIds.length ∧ allowedSourceIds.length ≤ 256 ∧ allowedSourceIds.Nodup
  kind_valid : kind.Valid

/-- The sources of a decision with the questions about them. -/
structure DecisionInput where
  sources : List DecisionSource
  questions : List Question
  sources_valid : 1 ≤ sources.length ∧ sources.length ≤ 256 ∧ (sources.map DecisionSource.id).Nodup
  questions_valid : 1 ≤ questions.length ∧ questions.length ≤ 256 ∧ (questions.map Question.id).Nodup
  references : ∀ question ∈ questions, ∀ source ∈ question.allowedSourceIds,
    source ∈ sources.map DecisionSource.id

/-! ## Answers -/

/-- Whether a question can be answered. -/
inductive AnswerabilityStatus where
  | answerable | partiallyAnswerable | notAnswerable | undetermined
  deriving DecidableEq

/-- The word for a status. -/
def AnswerabilityStatus.value : AnswerabilityStatus → String
  | answerable => "answerable"
  | partiallyAnswerable => "partially_answerable"
  | notAnswerable => "not_answerable"
  | undetermined => "undetermined"

/-- Whether a question can be answered, with its issues. -/
structure Answerability where
  status : AnswerabilityStatus
  issues : UniqueList DecisionIssue 3
  deriving DecidableEq

/-- Values of a predicate. -/
inductive PredicateValue where
  | yes | no | unknown
  deriving DecidableEq

/-- The word for a value. -/
def PredicateValue.value : PredicateValue → String
  | yes => "true"
  | no => "false"
  | unknown => "unknown"

/-- What a request is in its text. -/
inductive UnitStatus where
  | active | withdrawn | conditional | quoted
  deriving DecidableEq

/-- The word for a status. -/
def UnitStatus.value : UnitStatus → String
  | active => "active"
  | withdrawn => "withdrawn"
  | conditional => "conditional"
  | quoted => "quoted"

/-- One requested item; identifiers are local to the response. -/
structure RequestUnit where
  id : Id
  status : UnitStatus
  categoryId : Option Id
  subject : Option NonEmptyStr
  description : NonEmptyStr
  deriving DecidableEq

/-- The values a condition may require. -/
def requiredValue (value : Bool) : String := if value then "true" else "false"

/-- How requests depend on each other. -/
inductive RequestRelation where
  | conditionalOn (requestId predicateQuestionId : Id) (required : Bool)
  | requires (requestId requiredRequestId : Id)
  | precedes (beforeRequestId afterRequestId : Id)
  | mutuallyExclusive (requestIds : { ids : UniqueList Id 64 // 2 ≤ ids.1.length })
  deriving DecidableEq

/-- The requests of a text with their relations. -/
structure RequestUnitsAnswer where
  units : BoundedList RequestUnit 256
  relations : BoundedList RequestRelation 256
  deriving DecidableEq

/-- The answer to a question of each type; an abstention has none, except that a predicate is then
unknown. -/
inductive Answer where
  | choice (optionId : Option Id)
  | multiselect (optionIds : Option (UniqueList Id 1024))
  | predicate (value : PredicateValue)
  | ordinal (levelId : Option Id)
  | requestUnits (answer : Option RequestUnitsAnswer)
  deriving DecidableEq

namespace Answer

/-- The type of an answer. -/
def type : Answer → QuestionType
  | choice _ => .choice
  | multiselect _ => .multiselect
  | predicate _ => .predicate
  | ordinal _ => .ordinal
  | requestUnits _ => .requestUnits

/-- Whether there is an answer. -/
def present : Answer → Bool
  | choice answer => answer.isSome
  | multiselect answer => answer.isSome
  | predicate _ => true
  | ordinal answer => answer.isSome
  | requestUnits answer => answer.isSome

/-- The value of a predicate's answer. -/
def predicateValue : Answer → Option PredicateValue
  | predicate value => some value
  | _ => none

end Answer

/-! ## Rules -/

/-- The texts of the problems whose condition holds. -/
def problemsOf (rules : List (Bool × String)) : List String :=
  (rules.filter Prod.fst).map Prod.snd

/-- There are no problems when no rule is broken. -/
theorem problemsOf_eq_nil {rules : List (Bool × String)} :
    problemsOf rules = [] ↔ ∀ rule ∈ rules, rule.1 = false := by
  simp [problemsOf]

/-- Check the presence of an answer against the status. -/
def validateAnswerability (place : String) (type : QuestionType) (answerability : Answerability)
    (hasAnswer : Bool) (predicateValue : Option PredicateValue) : List String :=
  let status := answerability.status
  problemsOf [
    (status != .answerable && answerability.issues.1.isEmpty, place ++ ":issues-required"),
    (status == .partiallyAnswerable && type != .multiselect && type != .requestUnits,
      place ++ ":partial-not-supported")] ++
  if type = .predicate then
    problemsOf [
      (status == .answerable && predicateValue == some .unknown, place ++ ":unknown-on-answerable"),
      ((status == .notAnswerable || status == .undetermined) && predicateValue != some .unknown,
        place ++ ":substantive-on-unanswerable")]
  else
    problemsOf [
      ((status == .answerable || status == .partiallyAnswerable) && !hasAnswer,
        place ++ ":answer-required"),
      ((status == .notAnswerable || status == .undetermined) && hasAnswer,
        place ++ ":answer-must-be-null")]

/-! ## Relations between requests -/

/-- The targets of the edges from a node. -/
def successors (edges : List (Id × Id)) (node : Id) : List Id :=
  (edges.filter fun edge => edge.1 = node).map Prod.snd

/-- The edges lead back to where they start. -/
def hasDirectedCycle (edges : List (Id × Id)) : Bool :=
  match DepthFirst.visitAll (successors edges) (fun _ _ => .ok ()) () (2 * edges.length + 1) []
      ([] : List (Id × Unit)) (edges.map Prod.fst) with
  | .ok _ => false
  | .error _ => true

/-- The edges lead from one node to another. -/
def hasPath (edges : List (Id × Id)) (start stop : Id) : Bool :=
  stop ∈ Digraph.reachable (successors edges) (start :: edges.map Prod.snd) [start]

namespace RequestRelation

/-- What makes a relation a duplicate. -/
def key : RequestRelation → List String
  | conditionalOn request predicate required =>
      ["conditional_on", request.1, predicate.1, requiredValue required]
  | requires request required => ["requires", request.1, required.1]
  | precedes first last => ["precedes", first.1, last.1]
  | mutuallyExclusive ids => "mutually_exclusive" :: (ids.1.1.map Subtype.val).mergeSort

/-- The prerequisite with the request that needs it. -/
def requirement : RequestRelation → Option (Id × Id)
  | requires request required => some (required, request)
  | _ => none

/-- The order that a relation asks for, as an edge. -/
def directed : RequestRelation → Option (Id × Id)
  | requires request required => some (required, request)
  | precedes first last => some (first, last)
  | _ => none

/-- A condition with the value it requires. -/
def condition : RequestRelation → Option ((Id × Id) × Bool)
  | conditionalOn request predicate required => some ((request, predicate), required)
  | _ => none

/-- The requests of which at most one holds. -/
def exclusiveGroup : RequestRelation → Option (List Id)
  | mutuallyExclusive ids => some ids.1.1
  | _ => none

/-- The problems of one relation. -/
def problems (place : String) (unitIds predicateIds : List Id) : RequestRelation → List String
  | conditionalOn request predicate _ => problemsOf [
      (request ∉ unitIds, place ++ ":relation-unknown-request"),
      (predicate ∉ predicateIds, place ++ ":relation-unknown-predicate")]
  | requires request required => problemsOf [
      (request ∉ unitIds || required ∉ unitIds, place ++ ":relation-unknown-request"),
      (request == required, place ++ ":relation-self-reference")]
  | precedes first last => problemsOf [
      (first ∉ unitIds || last ∉ unitIds, place ++ ":relation-unknown-request"),
      (first == last, place ++ ":relation-self-reference")]
  | mutuallyExclusive ids => problemsOf [
      (ids.1.1.any (· ∉ unitIds), place ++ ":relation-unknown-request")]

end RequestRelation

/-- Check the references and the consistency of the relations. -/
def validateRequestRelations (place : String) (unitIds predicateIds : List Id)
    (relations : List RequestRelation) : List String :=
  let requires := relations.filterMap RequestRelation.requirement
  let conditions := relations.filterMap RequestRelation.condition
  relations.flatMap (RequestRelation.problems place unitIds predicateIds) ++
  problemsOf [
    (!decide (relations.map RequestRelation.key).Nodup, place ++ ":duplicate-relation"),
    (hasDirectedCycle (relations.filterMap RequestRelation.directed), place ++ ":relation-cycle"),
    (conditions.any fun first => conditions.any fun second =>
        first.1 == second.1 && first.2 != second.2,
      place ++ ":relation-conflicting-condition"),
    ((relations.filterMap RequestRelation.exclusiveGroup).any fun group =>
        group.any fun first => group.any fun second =>
          decide (first.1 < second.1) &&
            (hasPath requires first second || hasPath requires second first),
      place ++ ":relation-exclusive-dependency")]

end Foliqant.Decisions
