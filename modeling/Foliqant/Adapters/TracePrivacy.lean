import Mathlib.Data.Finset.Card
import Foliqant.Common.KeyedFilter
import Foliqant.Core.Doubles
import Foliqant.Core.Errors

/-!
# Privacy filtering of spans

Before a span reaches an exporter it is cloned with configured labels, fixed words, bounded numbers and
declared identifiers only. Attributes and event attributes are filtered by key; the names of the span
and of its scope are made of what is left. Identifiers, times, the kind and the status code are kept.
-/

namespace Foliqant.Adapters.Telemetry

open Foliqant.Core KeyedFilter

/-! ## Labels -/

/-- The largest count that a trace may carry. -/
def MAX_COUNT : ℤ := 2 ^ 53 - 1

/-- A character that a label may start with. -/
def isLabelStart (c : Char) : Bool := c.isAlphanum

/-- A character of a label. -/
def isLabelChar (c : Char) : Bool := c.isAlphanum || ['_', '.', ':', '/', '-'].contains c

/-- A letter or digit, then at most 127 letters, digits and some marks. -/
def isLabel (text : String) : Bool :=
  match text.toList with
  | [] => false
  | first :: rest => isLabelStart first && rest.length ≤ 127 && rest.all isLabelChar

/-- 1 to 512 characters without control characters. -/
def isCondition (text : String) : Bool :=
  1 ≤ text.toList.length && text.toList.length ≤ 512 &&
    text.toList.all fun c => 0x1f < c.toNat && c.toNat ≠ 0x7f

/-- A digit of an execution identifier. -/
def isHex (c : Char) : Bool := c.isDigit || ('a' ≤ c && c ≤ 'f')

/-- `[0-9a-f]{8}-[0-9a-f]{4}-[0-9a-f]{4}-[0-9a-f]{4}-[0-9a-f]{12}`. -/
def isExecutionId (text : String) : Bool :=
  (text.toList.splitOn '-').map List.length = [8, 4, 4, 4, 12] &&
    text.toList.all fun c => c == '-' || isHex c

/-- `[a-z0-9_.]{1,200}`. -/
def isLocation (text : String) : Bool :=
  1 ≤ text.toList.length && text.toList.length ≤ 200 &&
    text.toList.all fun c => c.isLower || c.isDigit || c == '_' || c == '.'

/-- A group of at most 1024 labels. -/
def LabelSet : Type :=
  { labels : Finset String // labels.card ≤ 1024 ∧ ∀ label ∈ labels, isLabel label = true }

/-- At most 4096 condensed conditions. -/
def ConditionSet : Type :=
  { labels : Finset String // labels.card ≤ 4096 ∧ ∀ label ∈ labels, isCondition label = true }

/-- Configuration values that may be exported. -/
structure TelemetryLabels where
  services : LabelSet
  models : LabelSet
  providers : LabelSet
  tools : LabelSet
  workflows : LabelSet
  steps : LabelSet
  flows : LabelSet
  cases : LabelSet
  conditions : ConditionSet

/-- An empty set of labels is within every bound. -/
theorem card_empty_le (bound : ℕ) : (∅ : Finset String).card ≤ bound := Nat.zero_le bound

/-- Every test holds of no labels. -/
theorem forall_mem_empty (test : String → Bool) : ∀ label ∈ (∅ : Finset String), test label = true :=
  fun _ mem => absurd mem (Finset.notMem_empty _)

/-- No labels. -/
def LabelSet.empty : LabelSet := ⟨∅, card_empty_le 1024, forall_mem_empty isLabel⟩

/-- No conditions. -/
def ConditionSet.empty : ConditionSet := ⟨∅, card_empty_le 4096, forall_mem_empty isCondition⟩

/-- Without declared labels no text passes that is not a fixed word. -/
def DEFAULT_LABELS : TelemetryLabels where
  services := .empty
  models := .empty
  providers := .empty
  tools := .empty
  workflows := .empty
  steps := .empty
  flows := .empty
  cases := .empty
  conditions := .empty

/-! ## Fixed words -/

/-- Operations of a model client. -/
def GEN_AI_OPERATIONS : List String := ["chat", "execute_tool", "inference", "invoke_agent"]

/-- Methods of a tool server. -/
def MCP_METHODS : List String := ["initialize", "server/discover", "ping", "tools/call", "tools/list"]

/-- Outcomes of a workflow, a flow or a step. -/
def OUTCOMES : List String := ["cancelled", "completed", "failed", "needs_review", "skipped"]

/-- The codes of errors. -/
def ERROR_CODES : List ErrorCode :=
  [.invalidConfiguration, .invalidInput, .invalidOutput, .invalidToolCall, .outputLimitReached,
    .outputRefused, .contextLimitExceeded, .requestRejected, .modelNotFound, .unauthenticated,
    .forbidden, .notFound, .missingBinding, .requestTimeout, .runTimeout, .stepLimitReached,
    .modelRequestLimitReached, .iterationLimitReached, .toolCallLimitReached, .rateLimited,
    .dependencyOverloaded, .dependencyFailure, .toolError, .toolOutputLimitExceeded,
    .toolCatalogMismatch, .handlerFailed, .conflict, .uncertainEffect, .cancelled, .capacityExceeded]

/-- The codes of errors, as words. -/
def ERROR_TYPES : List String := ERROR_CODES.map ErrorCode.value

/-- Why a model stopped. -/
def FINISH_REASONS : List String := ["stop", "length", "content_filter", "tool_call", "error"]

/-- What a flow is run as. -/
def ROLES : List String := ["routed", "callable", "retry"]

/-- How a target was chosen. -/
def ROUTE_KINDS : List String := ["direct", "cases", "route", "review"]

/-- Targets that end a workflow. -/
def OUTCOME_TARGETS : List String := ["completed", "needs_review"]

/-- Why a repeat stopped. -/
def STOPS : List String := ["until", "exhausted", "continue_when", "review", "failure"]

/-- Issues of a decision. -/
def ISSUES : List String :=
  ["no_supported_answer", "conflicting_information", "multiple_valid_options"]

/-- Operators of conditions. -/
def OPERATORS : List String :=
  ["present", "empty", "equals", "not_equals", "in", "not_in", "gt", "gte", "lt", "lte", "matches",
    "length"]

/-- Why an operator did not apply. -/
def MISMATCHES : List String := ["incompatible_type", "value_too_long"]

/-- Kinds of steps. -/
def STEP_KINDS : List String := ["decision", "llm", "mcp", "handler", "flow_collection"]

/-- Scopes of instrumentation that keep their name. -/
def SCOPES : List String :=
  ["foliqant.workflow", "foliqant.flow", "foliqant.step", "foliqant.tool", "mcp-python-sdk",
    "pydantic-ai"]

/-- How many events of a span are kept. -/
def MAX_EVENTS : ℕ := 128

/-- The largest cost that a trace may carry. -/
def MAX_COST : ℚ := 1000000000

/-- The attributes that are counts. -/
def USAGE_ATTRIBUTES : List String :=
  ["foliqant.usage.cache_read_input_tokens", "foliqant.usage.cache_write_input_tokens",
    "foliqant.usage.input_tokens", "foliqant.usage.model_requests", "foliqant.usage.output_tokens",
    "foliqant.usage.reasoning_output_tokens", "foliqant.usage.tool_calls",
    "foliqant.usage.output_retries", "foliqant.request.attempt",
    "gen_ai.aggregated_usage.cache_creation.input_tokens",
    "gen_ai.aggregated_usage.cache_read.input_tokens", "gen_ai.aggregated_usage.input_tokens",
    "gen_ai.aggregated_usage.output_tokens", "gen_ai.aggregated_usage.reasoning.output_tokens",
    "gen_ai.usage.cache_creation.input_tokens", "gen_ai.usage.cache_read.input_tokens",
    "gen_ai.usage.input_tokens", "gen_ai.usage.output_tokens",
    "gen_ai.usage.reasoning.output_tokens"]

/-! ## Values and their tests -/

/-- The value of an attribute. A float that is infinite or no number is `none`; `other` is any other
object with the texts it holds. -/
inductive AttributeValue where
  | str (text : String)
  | bool (b : Bool)
  | int (n : ℤ)
  | float (x : Option Double)
  | tuple (items : List AttributeValue)
  | other (texts : List String)

/-- The attributes of a span, an event or a resource. -/
abbrev Attributes := List (String × AttributeValue)

/-- What the value of an attribute must be to pass. -/
abbrev AttributeRule := Rule String AttributeValue

/-- A text among fixed words. -/
def oneOf (words : List String) : AttributeValue → Bool
  | .str text => words.contains text
  | _ => false

/-- A text among declared labels. -/
def labelled (labels : LabelSet) : AttributeValue → Bool
  | .str text => decide (text ∈ labels.1)
  | _ => false

/-- A label or a fixed word. -/
def labelledOr (labels : LabelSet) (words : List String) (value : AttributeValue) : Bool :=
  labelled labels value || oneOf words value

/-- An integer in a range. -/
def within (low high : ℤ) : AttributeValue → Bool
  | .int n => low ≤ n && n ≤ high
  | _ => false

/-- The value true. -/
def isTrue : AttributeValue → Bool
  | .bool b => b
  | _ => false

/-- A truth value. -/
def isBool : AttributeValue → Bool
  | .bool _ => true
  | _ => false

/-- A text that passes a test. -/
def textThat (test : String → Bool) : AttributeValue → Bool
  | .str text => test text
  | _ => false

/-- A configured model or a snapshot of it, such as `<model>-2026-05-01`. -/
def isResponseModel (labels : TelemetryLabels) (text : String) : Bool :=
  isLabel text && (decide (text ∈ labels.models.1) ||
    decide (∃ model ∈ labels.models.1, (model ++ "-").toList <+: text.toList))

/-- A finite cost in its bounds. -/
def isCost : AttributeValue → Bool
  | .float (some x) => 0 ≤ x.value && x.value ≤ MAX_COST
  | _ => false

/-- One to eight reasons of a model. -/
def areFinishReasons : AttributeValue → Bool
  | .tuple items => 0 < items.length && items.length ≤ 8 && items.all (oneOf FINISH_REASONS)
  | _ => false

/-- Issues of a decision. -/
def areIssues : AttributeValue → Bool
  | .tuple items => items.all (oneOf ISSUES)
  | _ => false

/-! ## Attributes -/

section Rules

variable (labels : TelemetryLabels)

/-- The attributes that hold a declared label. -/
def STRING_ATTRIBUTES : List (String × LabelSet) :=
  [("service.name", labels.services), ("foliqant.model.id", labels.models),
    ("foliqant.provider.name", labels.providers), ("foliqant.step.name", labels.steps),
    ("foliqant.flow.name", labels.flows), ("foliqant.tool.name", labels.tools),
    ("foliqant.workflow.name", labels.workflows), ("gen_ai.provider.name", labels.providers),
    ("gen_ai.request.model", labels.models), ("gen_ai.tool.name", labels.tools)]

/-- What `_safe_attributes` keeps, in its order. -/
def attributeRules : List AttributeRule :=
  (STRING_ATTRIBUTES labels).map (fun (key, group) => ⟨key, labelled group⟩) ++
  [⟨"gen_ai.response.model", textThat (isResponseModel labels)⟩,
    ⟨"foliqant.step.kind", oneOf STEP_KINDS⟩,
    ⟨"foliqant.usage.cost", isCost⟩,
    ⟨"gen_ai.operation.name", oneOf GEN_AI_OPERATIONS⟩,
    ⟨"mcp.method.name", oneOf MCP_METHODS⟩,
    ⟨"foliqant.outcome", oneOf OUTCOMES⟩,
    ⟨"error.type", oneOf ERROR_TYPES⟩,
    ⟨"gen_ai.response.finish_reasons", areFinishReasons⟩,
    ⟨"foliqant.response.reasoning_consumed_budget", isBool⟩,
    ⟨"foliqant.request.output_retry", isTrue⟩] ++
  USAGE_ATTRIBUTES.map (fun key => ⟨key, within 0 MAX_COUNT⟩) ++
  [⟨"foliqant.flow.role", oneOf ROLES⟩,
    ⟨"foliqant.flow.attempt", within 1 64⟩,
    ⟨"foliqant.flow.max_attempts", within 2 64⟩,
    ⟨"foliqant.collection.index", within 0 1023⟩,
    ⟨"foliqant.step.skipped", isTrue⟩,
    ⟨"foliqant.execution.id", textThat isExecutionId⟩]

/-- The attributes of a span that pass. -/
def safeAttributes (attributes : Attributes) : Attributes :=
  sanitize (attributeRules labels) attributes

/-- The attributes of a known event, and the one without which it is dropped. -/
def eventForm (name : String) : Option (Option String × List AttributeRule) :=
  if name = "route.selected" then
    some (some "kind", [⟨"kind", oneOf ROUTE_KINDS⟩,
      ⟨"target", labelledOr labels.flows OUTCOME_TARGETS⟩, ⟨"index", within 0 31⟩,
      ⟨"case", labelledOr labels.cases ISSUES⟩])
  else if name = "repeat.stopped" then some (some "stopped_by", [⟨"stopped_by", oneOf STOPS⟩])
  else if name = "step.skipped" then
    some (none, [⟨"condition", textThat fun text => decide (text ∈ labels.conditions.1)⟩])
  else if name = "condition.evaluated" then
    some (some "location", [⟨"location", textThat isLocation⟩, ⟨"result", isBool⟩])
  else if name = "condition.type_mismatch" then
    some (some "location", [⟨"location", textThat isLocation⟩, ⟨"operator", oneOf OPERATORS⟩,
      ⟨"reason", oneOf MISMATCHES⟩])
  else if name = "handler.review" then some (none, [⟨"issues", areIssues⟩])
  else none

/-- The attributes of an event that pass, if the event is known and keeps what it needs. -/
def safeEventAttributes (name : String) (attributes : Attributes) : Option Attributes :=
  match eventForm labels name with
  | none => none
  | some (needed, rules) =>
      let output := sanitize rules attributes
      if needed.all fun key => (output.lookup key).isSome then some output else none

end Rules

/-! ## Spans -/

/-- The identity of a span, with the state that travels with it. -/
structure SpanContext where
  traceId : ℕ
  spanId : ℕ
  isRemote : Bool
  traceFlags : ℕ
  traceState : List (String × String)

/-- A link to another span. -/
structure Link where
  context : Option SpanContext
  attributes : Attributes

/-- An event of a span. -/
structure SpanEvent where
  name : String
  attributes : Attributes
  timestamp : ℕ

/-- The process that a span comes from. -/
structure Resource where
  attributes : Attributes
  schemaUrl : String

/-- The library that made a span. -/
structure InstrumentationScope where
  name : String
  version : Option String
  schemaUrl : Option String
  attributes : Attributes

/-- Kinds of spans. -/
inductive SpanKind where
  | client | consumer | producer | server | ofInternal
  deriving DecidableEq

/-- Codes of a span's status. -/
inductive StatusCode where
  | unset | ok | error
  deriving DecidableEq

/-- How a span ended. -/
structure SpanStatus where
  code : StatusCode
  description : Option String

/-- A finished span. -/
structure ReadableSpan where
  name : String
  context : Option SpanContext
  parent : Option SpanContext
  resource : Resource
  attributes : Attributes
  events : List SpanEvent
  links : List Link
  kind : SpanKind
  status : SpanStatus
  startTime : Option ℕ
  endTime : Option ℕ
  scope : Option InstrumentationScope

/-- The context without its state. -/
def cleanContext (context : Option SpanContext) : Option SpanContext :=
  context.map fun context => { context with traceState := [] }

/-- The name of a known scope. -/
def safeScopeName (span : ReadableSpan) : String :=
  match span.scope with
  | none => "external"
  | some scope => if SCOPES.contains scope.name then scope.name else "external"

/-- The text without a leading part. -/
def removeLeading (leading text : String) : String :=
  if leading.toList <+: text.toList then String.ofList (text.toList.drop leading.length) else text

/-- Append what a number between bounds adds to a name. -/
def withNumber (low high : ℤ) (suffix : ℤ → String) (value : Option AttributeValue)
    (name : String) : String :=
  match value with
  | some (.int n) => if low ≤ n ∧ n ≤ high then name ++ suffix n else name
  | _ => name

/-- A span name with the kind of its step. -/
def withStepKind (value : Option AttributeValue) (name : String) : String :=
  match value with
  | some (.str kind) => if STEP_KINDS.contains kind then name ++ " (" ++ kind ++ ")" else name
  | _ => name

/-- Name a workflow, flow or step span from its sanitized attributes. -/
def scopeSpanName (scope : String) (attributes : Attributes) : String :=
  let kind := removeLeading "foliqant." scope
  let name := match attributes.lookup ("foliqant." ++ kind ++ ".name") with
    | some (.str label) => if isLabel label then kind ++ " " ++ label else kind
    | _ => kind
  if kind = "flow" then
    withNumber 2 64 (fun n => " #" ++ toString n) (attributes.lookup "foliqant.flow.attempt")
      (withNumber 0 1023 (fun n => " [item " ++ toString n ++ "]")
        (attributes.lookup "foliqant.collection.index") name)
  else if kind = "step" then withStepKind (attributes.lookup "foliqant.step.kind") name
  else name

/-- An operation followed by a name, if there is one. -/
def withTarget (operation : String) (target : Option AttributeValue) : String :=
  match target with
  | some (.str name) => operation ++ " " ++ name
  | _ => operation

/-- The name of a span of the model library. -/
def modelSpanName (attributes : Attributes) : String :=
  match attributes.lookup "gen_ai.operation.name" with
  | some (.str operation) =>
      if GEN_AI_OPERATIONS.contains operation then
        withTarget operation <|
          if operation = "execute_tool" then attributes.lookup "gen_ai.tool.name"
          else if operation = "chat" ∨ operation = "inference" then
            attributes.lookup "gen_ai.request.model"
          else none
      else "gen_ai.operation"
  | _ => "gen_ai.operation"

/-- The name of a span of the tool protocol. -/
def toolProtocolSpanName (attributes : Attributes) : String :=
  match attributes.lookup "mcp.method.name" with
  | some (.str method) =>
      if MCP_METHODS.contains method then
        withTarget method (if method = "tools/call" then attributes.lookup
          "gen_ai.tool.name" else none)
      else "mcp.operation"
  | _ => "mcp.operation"

/-- The name of a span of a scope. -/
def safeSpanName (scope : String) (attributes : Attributes) : String :=
  if ["foliqant.workflow", "foliqant.flow", "foliqant.step"].contains scope then
    scopeSpanName scope attributes
  else if scope = "foliqant.tool" then
    withTarget "execute_tool" (attributes.lookup "gen_ai.tool.name")
  else if scope = "pydantic-ai" then modelSpanName attributes
  else if scope = "mcp-python-sdk" then toolProtocolSpanName attributes
  else "external.operation"

/-- The events that pass, among the first ones. -/
def safeEvents (labels : TelemetryLabels) (events : List SpanEvent) : List SpanEvent :=
  (events.take MAX_EVENTS).filterMap fun event =>
    (safeEventAttributes labels event.name event.attributes).map fun safe =>
      { name := event.name, attributes := safe, timestamp := event.timestamp }

/-- The resource with its service, if declared. -/
def safeResource (labels : TelemetryLabels) (resource : Resource) : Resource :=
  { attributes := sanitize [⟨"service.name", labelled labels.services⟩] resource.attributes
    schemaUrl := "" }

/-- A failed span has an error type. -/
def withErrorType (code : StatusCode) (attributes : Attributes) : Attributes :=
  if code = .error ∧ attributes.lookup "error.type" = none then
    attributes ++ [("error.type", .str ErrorCode.dependencyFailure.value)]
  else attributes

/-- The links with nothing but their valid context. -/
def safeLinks (links : List Link) : List Link :=
  links.filterMap fun link =>
    (cleanContext link.context).map fun context => { context := some context, attributes := [] }

/-- The span that is exported. -/
def safeSpan (labels : TelemetryLabels) (span : ReadableSpan) : ReadableSpan :=
  let attributes := withErrorType span.status.code (safeAttributes labels span.attributes)
  { name := safeSpanName (safeScopeName span) attributes
    context := cleanContext span.context
    parent := cleanContext span.parent
    resource := safeResource labels span.resource
    attributes := attributes
    events := safeEvents labels span.events
    links := safeLinks span.links
    kind := span.kind
    status := { code := span.status.code, description := none }
    startTime := span.startTime
    endTime := span.endTime
    scope := some { name := safeScopeName span, version := none, schemaUrl := none, attributes := [] } }

end Foliqant.Adapters.Telemetry
