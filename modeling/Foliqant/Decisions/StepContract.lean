import Foliqant.Decisions.Native

/-!
# The public contract of a step

The fields of a public step record and the rules between them. A field that is not set is absent; one
that is set may still be null. The contract of a collection ledger is `ledgerValid`.
-/

namespace Foliqant.Decisions

open Foliqant.Core JsonText

/-- A public step record, by the fields that are set. -/
structure StepResult where
  status : Status
  elapsedSeconds : Option ℚ := none
  usage : Option Usage := none
  result : Option Json := none
  selection : Option (Option Selection) := none
  error : Option (Option ServiceError) := none
  partialResult : Option (Option Json) := none
  /-- `flow_collection`. -/
  kind : Option (Option Unit) := none

/-- The public form of a record sets the fields that are present. -/
def StepResult.ofRecord (record : StepRecord) : StepResult where
  status := record.status
  elapsedSeconds := record.elapsedSeconds
  usage := record.usage
  result := record.result
  selection := record.selection.map some
  error := record.error.map some
  partialResult := record.partialResult.map some
  kind := if record.collection then some (some ()) else none

/-- A configured category. -/
def selectedCategoryValid (category : CategoryPlan) : Bool :=
  1 ≤ category.id.length && category.id.length ≤ 128 &&
      category.id.toList.any (fun c => !isSpace c) &&
    category.description != some ""

/-- A member is present and is the given text. -/
def hasText (value : Option Json) (text : String) : Bool :=
  match value with
  | some (.str found) => found == text
  | _ => false

/-- A native result of a choice question. -/
def isChoiceResult (value : Json) : Bool :=
  ((resultCodec.decode value).map fun item => decide (item.1.answer.type = .choice)).getD false

/-- A native choice result agrees with its selection. -/
def choiceAgrees (members : Object) (selection : Selection) : Bool :=
  isChoiceResult (.obj members) &&
  match members.lookup "answerability" with
  | some (.obj answerability) =>
      match selection.origin with
      | .model =>
          hasText (answerability.lookup "status") "answerable" &&
          match members.lookup "answer" with
          | some (.obj answer) => hasText (answer.lookup "optionId") selection.category.id
          | _ => false
      | .fallback =>
          hasText (answerability.lookup "status") "not_answerable" &&
          (match answerability.lookup "issues" with
            | some (.arr issues) => !issues.isEmpty
            | _ => false) &&
          match members.lookup "answer" with
          | some .null | none => true
          | _ => false
  | _ => false

/-- A selection needs a result and the status of its origin; a native choice result agrees with it. -/
def StepResult.selectionAgrees (step : StepResult) : Bool :=
  match step.selection with
  | none => true
  | some none => false
  | some (some selection) =>
      step.result.isSome && selectedCategoryValid selection.category &&
      step.status == (if selection.origin = .model then .completed else .needsReview) &&
      match step.result with
      | some (.obj members) =>
          if hasText (members.lookup "type") "choice" then choiceAgrees members selection else true
      | _ => true

/-- The fields that a status requires or excludes. -/
def StepResult.statusAgrees (step : StepResult) : Bool :=
  match step.status with
  | .completed => step.result.isSome && step.error.isNone
  | .needsReview => step.error.isNone
  | .failed => step.result.isNone && step.error.isSome
  | .skipped => step.result.isNone && step.error.isNone && step.elapsedSeconds.isNone &&
      step.usage.isNone
  | .cancelled => step.result.isNone

/-- A field is omitted rather than null. -/
def notNull {α : Type} : Option (Option α) → Bool
  | some none => false
  | _ => true

/-- Only a failed collection has the ledger of its items as a partial result, and a successful one has
it as its result. -/
def StepResult.ledgerAgrees (ledgerValid : Json → Bool) (step : StepResult) : Bool :=
  (match step.partialResult with
    | some (some ledger) => ledgerValid ledger && step.status == .failed && step.kind.isSome
    | _ => true) &&
  match step.kind with
  | some (some ()) =>
      if step.status = .completed ∨ step.status = .needsReview then
        ledgerValid (step.result.getD .null)
      else true
  | _ => true

/-- The public contract of a step record. -/
def StepResult.valid (ledgerValid : Json → Bool) (step : StepResult) : Bool :=
  step.elapsedSeconds.all (0 ≤ ·) && notNull step.partialResult && notNull step.kind &&
    step.ledgerAgrees ledgerValid && step.selectionAgrees && notNull step.error && step.statusAgrees

end Foliqant.Decisions
