import Foliqant.Core.Plan
import Foliqant.Core.Usage

/-!
# Execution records

What a run records about its steps and flows, and the JSON form of a record in the ledger of a
collection. A record has a result exactly when one is present, null included.
-/

namespace Foliqant.Core

open JsonText

/-- How a run, a flow or a step ended. -/
inductive Status where
  | completed | needsReview | failed | cancelled | skipped
  deriving DecidableEq

/-- The word for a status. -/
def Status.value : Status → String
  | completed => "completed"
  | needsReview => "needs_review"
  | failed => "failed"
  | cancelled => "cancelled"
  | skipped => "skipped"

/-- Where a selection comes from. -/
inductive SelectionOrigin where
  | model | fallback
  deriving DecidableEq

/-- The word for an origin. -/
def SelectionOrigin.value : SelectionOrigin → String
  | model => "model"
  | fallback => "fallback"

/-- The effective classification, beside the unchanged result. -/
structure Selection where
  category : CategoryPlan
  origin : SelectionOrigin
  deriving DecidableEq

/-- The record of a step. -/
structure StepRecord where
  status : Status
  result : Option Json := none
  error : Option Failure := none
  elapsedSeconds : Option ℚ := none
  usage : Option Usage := none
  selection : Option Selection := none
  partialResult : Option Json := none
  /-- The record of a collection step. -/
  collection : Bool := false

/-- What an operation returns, with its business review facts. A result that is no JSON value is
absent. -/
structure StepOutcome where
  result : Option Json
  needsReview : Bool := false
  selection : Option Selection := none
  unresolvedIssues : List DecisionIssue := []

/-- Why a repeat stopped. -/
inductive RepeatStop where
  | untilMet | exhausted | continueWhen | review | failure
  deriving DecidableEq

/-- The word for the end of a repeat. -/
def RepeatStop.value : RepeatStop → String
  | untilMet => "until"
  | exhausted => "exhausted"
  | continueWhen => "continue_when"
  | review => "review"
  | failure => "failure"

/-- One run of a flow, with the steps it did not visit. -/
structure FlowRun where
  status : Status
  steps : List (String × StepRecord)
  result : Option Json := none
  usage : Option Usage := none
  elapsedSeconds : Option ℚ := none
  error : Option Failure := none

/-- The record of a flow: its last run, every run of a repeated or retry flow in order, and why a
repeat stopped. -/
structure FlowRecord extends FlowRun where
  attempts : List FlowRun := []
  stoppedBy : Option RepeatStop := none

/-- The number of runs; none for a skipped flow. -/
def FlowRecord.attemptCount (record : FlowRecord) : ℕ :=
  if record.attempts ≠ [] then record.attempts.length
  else if record.status = .skipped then 0 else 1

/-- The usage of all attempts. -/
def attemptsUsage (attempts : List FlowRun) : Usage :=
  attempts.foldl (fun total attempt => (attempt.usage.map (total.plus rounded)).getD total) {}

/-- The usage of every run, counted once. -/
def FlowRecord.totalUsage (record : FlowRecord) : Option Usage :=
  if record.attempts = [] then record.usage else some (attemptsUsage record.attempts)

/-- The seconds of all attempts. -/
def FlowRecord.totalElapsedSeconds (record : FlowRecord) : Option ℚ :=
  if record.attempts = [] then record.elapsedSeconds
  else some (record.attempts.map fun attempt => attempt.elapsedSeconds.getD 0).sum

/-- How a target was chosen. -/
inductive RouteKind where
  | direct | cases | route | review
  deriving DecidableEq

/-- A boundary that was taken. `routeCase` is the matched case key or review issue. -/
structure TransitionRecord where
  source : String
  reason : Disposition
  flow : Option String := none
  outcome : Option Disposition := none
  routeKind : RouteKind := .direct
  routeIndex : Option ℕ := none
  routeCase : Option String := none
  deriving DecidableEq

/-- The first flow of a run; `routeIndex` is the selected entry of a routed start. -/
structure StartRecord where
  flow : String
  routeIndex : Option ℕ := none
  deriving DecidableEq

/-- The result of a run. -/
structure RunResult where
  workflow : String
  revision : String
  status : Status
  payload : Json
  metadata : Object
  flows : List (String × FlowRecord)
  usage : Usage
  error : Option Failure := none
  transitions : List TransitionRecord := []
  start : Option StartRecord := none

/-! ## Ledgers -/

/-- The word for an issue. -/
def DecisionIssue.value : DecisionIssue → String
  | noSupportedAnswer => "no_supported_answer"
  | conflictingInformation => "conflicting_information"
  | multipleValidOptions => "multiple_valid_options"

/-- The members whose value is present. -/
def presentMembers (members : List (String × Option Json)) : Object :=
  members.filterMap fun (key, value) => value.map (key, ·)

/-- The public form of a failure; absent explanations are omitted. -/
def ServiceError.asJson (failure : Failure) : Json :=
  .obj (presentMembers [("code", some (.str failure.code.value)),
    ("message", some (.str failure.code.message)),
    ("retryable", some (.bool failure.retryable)),
    ("reason", failure.reason.map fun reason => .str reason.value),
    ("location", failure.location.map .str), ("constraint", failure.constraint.map .str)])

/-- The JSON of a category. -/
def CategoryPlan.asJson (category : CategoryPlan) : Json :=
  .obj (presentMembers [("id", some (.str category.id)),
    ("description", category.description.map .str)])

/-- The JSON of a selection. -/
def Selection.asJson (selection : Selection) : Json :=
  .obj [("category", selection.category.asJson), ("origin", .str selection.origin.value)]

/-- The nearest natural number, a tie to the even one. -/
def roundHalfEven (x : ℚ≥0) : ℕ :=
  let whole := x.num / x.den
  let rest := 2 * (x.num % x.den)
  if rest < x.den then whole
  else if x.den < rest then whole + 1
  else whole + whole % 2

/-- Round an amount to six decimals; an amount of more than 28 digits is refused. -/
def quantize (amount : ℚ≥0) : Except Exn ℚ :=
  if roundHalfEven (amount * 10 ^ 6) < 10 ^ 28 then
    .ok ((roundHalfEven (amount * 10 ^ 6) : ℚ) / 10 ^ 6)
  else .error .other

/-- An estimate rounded to six decimals; an unknown amount is null. -/
def costValue (cost : Cost) : Except Exn Object := do
  let amount ← match cost.amount with
    | some amount => do pure (.float (← quantize amount))
    | none => pure Value.null
  return presentMembers [("cost", some amount),
    ("cost_complete", some (.bool cost.amount.isSome)), ("currency", some (.str cost.currency)),
    ("reference_model", cost.referenceModel.map .str)]

/-- The members of a cost that may be missing. -/
def costMembers : Option Cost → Except Exn Object
  | some cost => costValue cost
  | none => .ok []

/-- The JSON of a count. -/
def countValue : Option ℕ → Json
  | some n => .int n
  | none => .null

/-- The JSON of a model's usage. -/
def modelUsageValue (usage : ModelUsage) : Except Exn Json := do
  let cost ← costMembers usage.cost
  return .obj ([("requests", .int usage.requests),
    ("input_tokens", countValue usage.tokens.inputTokens),
    ("cached_input_tokens", countValue usage.tokens.cacheReadInputTokens),
    ("output_tokens", countValue usage.tokens.outputTokens),
    ("reasoning_tokens", countValue usage.tokens.reasoningOutputTokens)] ++ cost)

/-- The members of the usage by models. -/
def byModelValue : ByModel → Except Exn Object
  | [] => .ok []
  | (model, usage) :: rest => do
      let value ← modelUsageValue usage
      let others ← byModelValue rest
      return (model, value) :: others

/-- The JSON of a usage. -/
def usageValue (usage : Usage) : Except Exn Json := do
  let cost ← costMembers (usage.cost rounded)
  let byModel ← byModelValue usage.byModel
  return .obj ([("model_requests", .int usage.modelRequests), ("tool_calls", .int usage.toolCalls),
    ("output_retries", .int usage.outputRetries),
    ("input_tokens", countValue usage.tokens.inputTokens),
    ("output_tokens", countValue usage.tokens.outputTokens),
    ("cache_read_input_tokens", countValue usage.tokens.cacheReadInputTokens),
    ("cache_write_input_tokens", countValue usage.tokens.cacheWriteInputTokens),
    ("reasoning_output_tokens", countValue usage.tokens.reasoningOutputTokens)] ++ cost ++
    if byModel = [] then [] else [("by_model", .obj byModel)])

/-- The JSON of a usage that may be missing. -/
def optionalUsage : Option Usage → Except Exn (Option Json)
  | some usage => do return some (← usageValue usage)
  | none => .ok none

/-- The members that step and flow records share. -/
def recordValue (status : Status) (result : Option Json) (usage : Option Usage)
    (elapsedSeconds : Option ℚ) (error : Option Failure) : Except Exn Object := do
  let usage ← optionalUsage usage
  return presentMembers [("status", some (.str status.value)), ("result", result),
    ("usage", usage), ("elapsed_seconds", elapsedSeconds.map .float),
    ("error", error.map ServiceError.asJson)]

/-- The JSON of a step's record. -/
def stepRecordValue (record : StepRecord) : Except Exn Json := do
  let members ← recordValue record.status record.result record.usage record.elapsedSeconds
    record.error
  return .obj (members ++ presentMembers [("selection", record.selection.map Selection.asJson),
    ("partial_result", record.partialResult),
    ("kind", if record.collection then some (.str "flow_collection") else none)])

/-- The step records of a flow by name; a repeated name fails. -/
def stepValues (done : Object) : List (String × StepRecord) → Except Exn Object
  | [] => .ok done
  | (name, step) :: rest =>
      if name ∈ Dict.keys done then fail .invalidOutput
      else do
        let value ← stepRecordValue step
        stepValues (done ++ [(name, value)]) rest

/-- The members of a flow's run. -/
def flowValue (run : FlowRun) : Except Exn Object := do
  let members ← recordValue run.status run.result run.usage run.elapsedSeconds run.error
  let steps ← stepValues [] run.steps
  return members ++ [("steps", .obj steps)]

/-- The numbered runs of a repeated flow. -/
def attemptValues (index : ℕ) : List FlowRun → Except Exn (List Json)
  | [] => .ok []
  | attempt :: rest => do
      let members ← flowValue attempt
      let others ← attemptValues (index + 1) rest
      return .obj (("attempt", .int index) :: members) :: others

/-- The record of a flow with every local step exactly once. -/
def flowRecordValue (record : FlowRecord) : Except Exn Object := do
  let members ← flowValue record.toFlowRun
  let attempts ← attemptValues 1 record.attempts
  let total ← optionalUsage record.totalUsage
  return members ++ [("attempt_count", .int record.attemptCount)] ++
    (if record.attempts = [] then []
      else presentMembers [("attempts", some (.arr attempts)), ("attempts_usage", total),
        ("attempts_elapsed_seconds", record.totalElapsedSeconds.map .float)]) ++
    presentMembers [("repeat", record.stoppedBy.map fun stop =>
      .obj [("stopped_by", .str stop.value)])]

end Foliqant.Core
