import Foliqant.Core.Json
import Foliqant.Evaluation.Checkpoint
import Mathlib.Data.List.Sort
import Mathlib.Data.String.Basic

/-!
# Attempts of an evaluation

An attempt is a case and a one-based repetition. It is resumed when the checkpoint has a record of it
with the same input, and run otherwise; `caseReport` is what one attempt gives. The pipeline, the
validation of its results and the scoring are parameters: an evaluation is the same for any of them.
-/

namespace Foliqant.Evaluation

open Foliqant.Core JsonText

/-- A case and its input, as accepted by the constructor: the payload and the metadata are frozen
on their own. -/
structure EvaluationCase where
  id : String
  payload : Json
  metadata : Object
  payload_depth : depth payload ≤ MAX_JSON_DEPTH
  metadata_depth : depth (.obj metadata) ≤ MAX_JSON_DEPTH

/-- The envelope of a case as JSON. -/
def EvaluationCase.envelope (case : EvaluationCase) : Json :=
  .obj [("payload", case.payload), ("metadata", .obj case.metadata)]

/-- Nonempty cases with distinct identifiers. -/
structure EvaluationSuite where
  name : String
  cases : List EvaluationCase
  nonempty : cases ≠ []
  distinct : (cases.map EvaluationCase.id).Nodup

/-- The status of an attempt: that of its result, or that it has none. -/
inductive AttemptStatus where
  | completed | needsReview | failed | cancelled | error
  deriving DecidableEq, Repr

/-- The statuses whose results are worth recording. -/
def EXECUTED_STATUSES : List AttemptStatus := [.completed, .needsReview]

/-- Why an attempt has no result. -/
inductive CaseError where
  | timeout
  | service (code : ErrorCode)
  | other
  deriving DecidableEq

/-- The error code an attempt records. -/
def CaseError.code : CaseError → String
  | .timeout => ErrorCode.runTimeout.value
  | .service code => code.value
  | .other => "evaluation_execution_error"

/-- What an evaluation calls. `run` has the public result of the pipeline as JSON, `observe` validates
a result and takes its status, `score` makes the checks, records and metric observations, and
`summarize` the summaries, rates and metrics of a report from the attempts in order. -/
structure Pipeline (C M : Type) where
  floats : Floats ℚ
  run : EvaluationCase → ℕ → Except CaseError Object
  elapsed : EvaluationCase → ℕ → ℚ
  observe : Object → Except CaseError AttemptStatus
  score : EvaluationCase → Option Object → C
  summarize : List C → M

/-- One attempt; the error code is that of an attempt without a result. -/
structure CaseReport (C : Type) where
  id : String
  repetition : ℕ
  status : AttemptStatus
  scored : C
  elapsedSeconds : ℚ
  errorCode : Option String
  resumed : Bool

/-! ## Comparing an input with its record -/

mutual

/-- The value with the keys of its objects in order. -/
def sortKeys : Json → Json
  | .arr items => .arr (sortItems items)
  | .obj members => .obj (sortMembers members)
  | value => value

/-- The items of a list, each with sorted keys. -/
def sortItems : List Json → List Json
  | [] => []
  | item :: rest => sortKeys item :: sortItems rest

/-- The members of an object in the order of their keys, each sorted within. -/
def sortMembers : Object → Object
  | [] => []
  | (key, value) :: rest => (sortMembers rest).orderedInsert (·.1 ≤ ·.1) (key, sortKeys value)

end

variable {C M : Type}

/-- Canonical text. It escapes more characters than the source's, one to one, so the same texts are
equal. -/
def canonical (floats : Floats ℚ) (value : Json) : List Char := write floats (sortKeys value)

/-- The recorded attempt to reuse, if it was recorded and for the same input. -/
def savedAttempt (pipeline : Pipeline C M) (recorded : Saved ℚ) (case : EvaluationCase)
    (repetition : ℕ) : Except Exn (Option (SavedAttempt ℚ)) :=
  match recorded.lookup (case.id, (repetition : ℤ)) with
  | none => .ok none
  | some saved => do
      let input ← freezeJson MAX_JSON_DEPTH saved.input
      let own ← freezeJson MAX_JSON_DEPTH case.envelope
      if canonical pipeline.floats input ≠ canonical pipeline.floats own then .ok none
      else .ok (some saved)

/-! ## One attempt -/

/-- The result of an attempt with its status, or why there is none. -/
def returned (pipeline : Pipeline C M) (case : EvaluationCase) (repetition : ℕ)
    (saved : Option (SavedAttempt ℚ)) : Except CaseError (Object × AttemptStatus) := do
  let result ←
    match saved with
    | some saved => .ok saved.result
    | none => pipeline.run case repetition
  let status ← pipeline.observe result
  .ok (result, status)

/-- The seconds of a recorded attempt are those of its record. -/
def elapsedSeconds (pipeline : Pipeline C M) (case : EvaluationCase) (repetition : ℕ)
    (saved : Option (SavedAttempt ℚ)) : ℚ :=
  match saved with
  | some saved => saved.elapsedSeconds
  | none => pipeline.elapsed case repetition

/-- `_case`. -/
def caseReport (pipeline : Pipeline C M) (case : EvaluationCase) (repetition : ℕ)
    (saved : Option (SavedAttempt ℚ)) : CaseReport C :=
  match returned pipeline case repetition saved with
  | .error error =>
      { id := case.id
        repetition := repetition
        status := .error
        scored := pipeline.score case none
        elapsedSeconds := pipeline.elapsed case repetition
        errorCode := some error.code
        resumed := false }
  | .ok (result, status) =>
      { id := case.id
        repetition := repetition
        status := status
        scored := pipeline.score case (some result)
        elapsedSeconds := elapsedSeconds pipeline case repetition saved
        errorCode := none
        resumed := saved.isSome }

/-- What an attempt adds to the journal: an executed result that was not in it. -/
def journaled (pipeline : Pipeline C M) (case : EvaluationCase) (repetition : ℕ)
    (saved : Option (SavedAttempt ℚ)) : Option (Object × AttemptStatus) :=
  match returned pipeline case repetition saved with
  | .error _ => none
  | .ok (result, status) =>
      if saved.isNone ∧ status ∈ EXECUTED_STATUSES then some (result, status) else none

end Foliqant.Evaluation
