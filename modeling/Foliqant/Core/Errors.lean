import Mathlib.Algebra.Order.Ring.Rat

/-!
# Failures

Every failure has one code with a fixed message. Its reason, location and constraint explain it
without content; a value outside the safe patterns is dropped when the error is built.
-/

namespace Foliqant.Core

/-- The codes of errors. -/
inductive ErrorCode where
  | invalidConfiguration | invalidInput | invalidOutput | invalidToolCall | outputLimitReached
  | outputRefused | contextLimitExceeded | requestRejected | modelNotFound | unauthenticated
  | forbidden | notFound | missingBinding | requestTimeout | runTimeout | stepLimitReached
  | modelRequestLimitReached | iterationLimitReached | toolCallLimitReached | rateLimited
  | dependencyOverloaded | dependencyFailure | toolError | toolOutputLimitExceeded
  | toolCatalogMismatch | handlerFailed | conflict | uncertainEffect | cancelled | capacityExceeded
  deriving DecidableEq, Repr

/-- The code as it is written in a record. -/
def ErrorCode.value : ErrorCode → String
  | invalidConfiguration => "invalid_configuration"
  | invalidInput => "invalid_input"
  | invalidOutput => "invalid_output"
  | invalidToolCall => "invalid_tool_call"
  | outputLimitReached => "output_limit_reached"
  | outputRefused => "output_refused"
  | contextLimitExceeded => "context_limit_exceeded"
  | requestRejected => "request_rejected"
  | modelNotFound => "model_not_found"
  | unauthenticated => "unauthenticated"
  | forbidden => "forbidden"
  | notFound => "not_found"
  | missingBinding => "missing_binding"
  | requestTimeout => "request_timeout"
  | runTimeout => "run_timeout"
  | stepLimitReached => "step_limit_reached"
  | modelRequestLimitReached => "model_request_limit_reached"
  | iterationLimitReached => "iteration_limit_reached"
  | toolCallLimitReached => "tool_call_limit_reached"
  | rateLimited => "rate_limited"
  | dependencyOverloaded => "dependency_overloaded"
  | dependencyFailure => "dependency_failure"
  | toolError => "tool_error"
  | toolOutputLimitExceeded => "tool_output_limit_exceeded"
  | toolCatalogMismatch => "tool_catalog_mismatch"
  | handlerFailed => "handler_failed"
  | conflict => "conflict"
  | uncertainEffect => "uncertain_effect"
  | cancelled => "cancelled"
  | capacityExceeded => "capacity_exceeded"

/-- The text of an error. -/
def ErrorCode.message : ErrorCode → String
  | invalidConfiguration => "The workflow configuration is invalid."
  | invalidInput => "The input does not satisfy the required contract."
  | invalidOutput => "An operation returned an invalid result."
  | invalidToolCall =>
      "The model called an unknown tool or passed arguments that violate its schema."
  | outputLimitReached => "The model reached its output token limit before completing the result."
  | outputRefused => "The model or its provider refused to produce the result."
  | contextLimitExceeded => "The model request exceeds the model's context window."
  | requestRejected => "The model provider or tool server rejected the request."
  | modelNotFound => "The configured model is not available at the provider."
  | unauthenticated => "Authentication is required."
  | forbidden => "The operation is not authorized."
  | notFound => "The requested resource was not found."
  | missingBinding => "A required input binding is unavailable."
  | requestTimeout => "A model, tool or handler request exceeded its timeout."
  | runTimeout => "The run exceeded its deadline."
  | stepLimitReached => "The run reached its limit of executed steps."
  | modelRequestLimitReached => "The step reached its limit of model requests."
  | iterationLimitReached => "The step reached its limit of model turns before a final answer."
  | toolCallLimitReached => "The step reached its limit of tool calls."
  | rateLimited => "A dependency rejected the request because of a rate limit."
  | dependencyOverloaded => "A dependency is temporarily overloaded."
  | dependencyFailure => "A required dependency is unavailable."
  | toolError => "The tool reported an error."
  | toolOutputLimitExceeded => "The tool result exceeds its configured size limit."
  | toolCatalogMismatch => "The tool server's tools differ from the declared catalog."
  | handlerFailed => "A registered handler failed unexpectedly."
  | conflict => "The request conflicts with an existing operation."
  | uncertainEffect => "An external operation requires reconciliation."
  | cancelled => "The execution was cancelled."
  | capacityExceeded => "The service has reached its admission limit."

/-- Why an invalid output or a reached output limit happened. -/
inductive FailureReason where
  | jsonParseError | schemaViolation | decisionContract | missingOutput | reasoningConsumedBudget
  | answerExceededBudget
  deriving DecidableEq, Repr

/-- The word for a reason. -/
def FailureReason.value : FailureReason → String
  | jsonParseError => "json_parse_error"
  | schemaViolation => "schema_violation"
  | decisionContract => "decision_contract"
  | missingOutput => "missing_output"
  | reasoningConsumedBudget => "reasoning_consumed_budget"
  | answerExceededBudget => "answer_exceeded_budget"

/-! ## Safe explanations -/

/-- A small letter. -/
def isLower (c : Char) : Bool := 'a' ≤ c && c ≤ 'z'

/-- A capital letter. -/
def isUpper (c : Char) : Bool := 'A' ≤ c && c ≤ 'Z'

/-- A digit. -/
def isDigit (c : Char) : Bool := '0' ≤ c && c ≤ '9'

/-- A character of a safe location. -/
def isLocationChar (c : Char) : Bool :=
  isUpper c || isLower c || isDigit c || ['_', '.', ':', '*', '/', '-'].contains c

/-- A JSON pointer of schema vocabulary, or the identifier of a question. -/
def isSafeLocation (text : String) : Bool :=
  1 ≤ text.length && text.length ≤ 256 && text.toList.all isLocationChar

/-- A validator keyword or the kind of a problem. -/
def isSafeConstraint (text : String) : Bool :=
  match text.toList with
  | [] => false
  | first :: rest =>
      isLower first && rest.length ≤ 63 && rest.all fun c => isLower c || isDigit c || c == '_'

/-- A location that may be told. -/
def safeLocation (value : Option String) : Option String := value.filter isSafeLocation

/-- A constraint that may be told. -/
def safeConstraint (value : Option String) : Option String := value.filter isSafeConstraint

/-- An error code with its safe explanation; raised by the engine and its adapters. -/
structure ServiceError where
  code : ErrorCode
  retryable : Bool := false
  reason : Option FailureReason := none
  location : Option String := none
  constraint : Option String := none
  location_safe : ∀ text ∈ location, isSafeLocation text = true := by simp
  constraint_safe : ∀ text ∈ constraint, isSafeConstraint text = true := by simp
  deriving DecidableEq

/-- Build an error; an unsafe explanation is dropped. -/
def ServiceError.raise (code : ErrorCode) (retryable : Bool) (reason : Option FailureReason)
    (location constraint : Option String) : ServiceError where
  code := code
  retryable := retryable
  reason := reason
  location := safeLocation location
  constraint := safeConstraint constraint
  location_safe _ h := (Option.mem_filter_iff.mp h).2
  constraint_safe _ h := (Option.mem_filter_iff.mp h).2

/-- The recorded form of an error has the same data. -/
abbrev Failure := ServiceError

/-- An error without an explanation. -/
def ErrorCode.error (code : ErrorCode) : ServiceError := { code := code }

/-- The error of a code has it. -/
@[simp] theorem ErrorCode.error_code (code : ErrorCode) : code.error.code = code := rfl

/-- Codes of an operation that ran into a time bound. -/
def timeoutCodes : List ErrorCode := [.requestTimeout, .runTimeout]

/-- Which bound a timeout hit. -/
def timeoutCode (now runDeadline : ℚ) : ErrorCode :=
  if now ≥ runDeadline then .runTimeout else .requestTimeout

/-- What an operation of the engine can raise; a cancelled run has no result and is left out. -/
inductive Exn where
  | service (error : ServiceError)
  /-- `TimeoutError`. -/
  | timeout
  | other
  deriving DecidableEq

/-- Raise an error without an explanation. -/
def fail {α : Type*} (code : ErrorCode) : Except Exn α := .error (.service code.error)

end Foliqant.Core
