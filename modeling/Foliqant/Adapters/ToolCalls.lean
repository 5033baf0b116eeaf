import Foliqant.Adapters.ModelRequests
import Foliqant.Core.Json
import Foliqant.Core.Retry

/-!
# Tool calls of a step

A session offers the allowed tools of one server to one step. A call is validated, and each attempt of it
is authorized, reserved in the budget and sent, with a suspension between the authorization and the rest.
The machine interleaves any number of calls with model requests and with the end of the session. Its log,
the newest entry first, is what the protocol is stated over.
-/

namespace Foliqant.Adapters

open Foliqant.Core

/-! ## The declared catalog -/

/-- What a schema validator makes of a value; it is broken when it raises anything but a violation. -/
inductive SchemaCheck where
  | valid
  | violated
  | broken
  deriving DecidableEq

/-- What a tool does to the world. -/
inductive ToolEffect where
  | read
  | write
  deriving DecidableEq

/-- A tool with its schemas. -/
structure DeclaredTool where
  inputValidator : Json → SchemaCheck
  outputValidator : Option (Json → SchemaCheck)
  effect : ToolEffect

/-- A part of a result. -/
inductive ContentBlock where
  | text (text : String)
  | other

/-- The structured content is there when the server sent it, even as null. -/
structure CallToolResult where
  isError : Bool := false
  structuredContent : Option Json := none
  content : List ContentBlock := []

/-- The tools of a server. -/
structure ToolCatalog where
  tools : List (String × DeclaredTool)
  maxResultBytes : ℕ
  /-- The length of the canonical encoding of a value that can be encoded. -/
  canonicalBytes : Json → Option ℕ

/-- Validate tool arguments using a fixed safe input failure. -/
def ToolCatalog.validateInput (catalog : ToolCatalog) (name : String) (arguments : Object) :
    Except Exn Unit :=
  match catalog.tools.lookup name with
  | none => fail .invalidInput
  | some declared =>
    if depth (.obj arguments) > MAX_JSON_DEPTH then fail .invalidInput
    else
      match declared.inputValidator (.obj arguments) with
      | .valid => .ok ()
      | .violated => fail .invalidInput
      | .broken => fail .invalidConfiguration

/-- The texts of the blocks, when all are texts. -/
def contentTexts : List ContentBlock → Option (List String)
  | [] => some []
  | .text text :: blocks => (contentTexts blocks).map (text :: ·)
  | .other :: _ => none

/-- The structured result of a tool. -/
def ToolCatalog.structuredResult (catalog : ToolCatalog) (declared : DeclaredTool) (content : Json) :
    Except Exn Json :=
  match declared.outputValidator with
  | none => fail .invalidOutput
  | some validator =>
    if depth content > MAX_JSON_DEPTH then fail .invalidOutput
    else
      match validator content, catalog.canonicalBytes content with
      | .violated, _ => fail .invalidOutput
      | .broken, _ => fail .invalidConfiguration
      | .valid, none => fail .invalidOutput
      | .valid, some size =>
          if size > catalog.maxResultBytes then fail .toolOutputLimitExceeded else .ok content

/-- The text of a tool that has no schema. -/
def ToolCatalog.textResult (catalog : ToolCatalog) (declared : DeclaredTool)
    (content : List ContentBlock) : Except Exn Json :=
  if declared.outputValidator.isSome then fail .invalidOutput
  else
    match contentTexts content with
    | none => fail .invalidOutput
    | some texts =>
      let text := "\n".intercalate texts
      if text.utf8ByteSize > catalog.maxResultBytes then fail .toolOutputLimitExceeded
      else .ok (.str text)

/-- Validate and normalize one result. -/
def ToolCatalog.validateResult (catalog : ToolCatalog) (name : String) (result : CallToolResult) :
    Except Exn Json :=
  match catalog.tools.lookup name with
  | none => fail .forbidden
  | some declared =>
    -- The tool ran and reported failure: a failure, never a tool result.
    if result.isError then fail .toolError
    else
      match result.structuredContent with
      | some content => catalog.structuredResult declared content
      | none => catalog.textResult declared result.content

/-! ## The tool choice -/

/-- Which tools must be called. -/
inductive ChoiceMode where
  | auto
  | required
  | named
  deriving DecidableEq

/-- The policy about tools. -/
structure ToolPolicyPlan where
  choiceMode : ChoiceMode
  choiceName : Option String := none

/-- What a model is told about tools. -/
inductive ToolChoice where
  | auto
  | required
  | named (name : String)
  deriving DecidableEq

/-- The named tool has succeeded. -/
def ToolPolicyPlan.named (policy : ToolPolicyPlan) (successful : List String) : Bool :=
  policy.choiceName.any successful.contains

/-- Require a successful function call once, then permit the final answer. -/
def ToolPolicyPlan.settings (policy : ToolPolicyPlan) (successful : List String) :
    Except Exn ToolChoice :=
  match policy.choiceMode with
  | .auto => .ok .auto
  | .required => .ok (if successful.isEmpty then .required else .auto)
  | .named =>
    if policy.named successful then .ok .auto
    else
      match policy.choiceName with
      | none => fail .invalidConfiguration
      | some name => .ok (.named name)

/-- The policy is met when the conversation ends. -/
def ToolPolicyPlan.validateCompletion (policy : ToolPolicyPlan) (successful : List String) :
    Except Exn Unit :=
  match policy.choiceMode with
  | .auto => .ok ()
  | .required => if successful.isEmpty then fail .invalidOutput else .ok ()
  | .named => if policy.named successful then .ok () else fail .invalidOutput

/-! ## The session -/

/-- What a call can raise beside service errors. -/
inductive ToolException where
  | inputRequired
  | cancelled
  | timeout
  | other
  deriving DecidableEq

/-- What a call raises. -/
abbrev ToolRaised := Raised ToolException

/-- What an error of the catalog raises. -/
def raisedBy : Exn → ToolRaised
  | .service error => .service error
  | .timeout => .other .timeout
  | .other => .other .other

/-- One session's tools, and the step that uses them. -/
structure ToolSession where
  catalog : ToolCatalog
  names : List String
  policy : ToolPolicyPlan
  retry : RetryPolicy
  timeout : ℚ
  /-- The deadline of the step. -/
  deadline : ℚ
  limits : StepLimits
  identityMetaKey : Option String := none
  tenantId : Option String := none
  principalId : Option String := none

/-- The arguments of a request are the frozen ones. -/
structure ToolRequest where
  name : String
  arguments : Object
  metadata : Object

/-- The trace carrier of a call, with the identifiers of the caller. -/
def ToolSession.metadata (session : ToolSession) (carrier : List (String × String)) :
    Except Exn Object :=
  if carrier.any fun entry =>
      !(["traceparent", "tracestate"].contains entry.1) || decide (entry.2.length > 512) then
    fail .invalidConfiguration
  else
    let traced : Object := carrier.map fun entry => (entry.1, .str entry.2)
    let identifiers := presentMembers
      [("tenant_id", session.tenantId.map .str), ("principal_id", session.principalId.map .str)]
    match session.identityMetaKey with
    | none => .ok traced
    | some key => .ok (if identifiers.isEmpty then traced else Dict.set key (.obj identifiers) traced)

/-- The suspension point of a call: the authorizer, the request or the wait of a retry. -/
inductive CallPhase where
  | authorizing
  | sent
  | waiting
  deriving DecidableEq

/-- A call of a tool at its current attempt; a waiting call has the number of its next one. -/
structure ToolCall where
  name : String
  arguments : Object
  fromModel : Bool
  deadline : ℚ
  attempt : ℕ := 1
  last : Option TransientFailure := none
  phase : CallPhase := .authorizing

/-- What happens to the calls of a session. -/
inductive ToolEntry where
  | validated (call : ℕ) (name : String) (arguments : Object)
  | authorized (call attempt : ℕ) (name : String) (arguments : Object)
  | reserved (call attempt ticket : ℕ)
  | sent (call attempt : ℕ) (request : ToolRequest)
  | accepted (call attempt : ℕ) (name : String) (result : CallToolResult) (value : Json)
  | successful (name : String)
  | ended (call : ℕ) (outcome : Except ToolRaised Json)
  | completed
  | closed

/-- The state of a session with its calls. -/
structure McpTools where
  model : InvocationModel
  active : Bool := true
  successful : List String := []
  started : ℕ := 0
  calls : List (ℕ × ToolCall) := []
  log : List ToolEntry := []

/-- What the server or the client makes of a request. -/
inductive RpcError where
  | requestTimeout
  | internalError
  /-- `INVALID_PARAMS`, `INVALID_REQUEST` or `METHOD_NOT_FOUND`. -/
  | rejected
  | other
  deriving DecidableEq

/-- What a server replies. -/
inductive ToolReply where
  | result (result : CallToolResult)
  | inputRequired
  | rpcError (error : RpcError) (http : Option (Raised Empty))
  | malformed
  | failed

/-- What happens to a session. -/
inductive ToolEvent where
  | call (name : String) (arguments : Object) (fromModel : Bool) (now : ℚ)
  /-- The authorizer returns or raises. -/
  | authorize (call : ℕ) (answer : Except ToolRaised Unit) (carrier : List (String × String))
      (now jitter : ℚ)
  | reply (call : ℕ) (reply : ToolReply) (now jitter : ℚ)
  /-- The wait of a retry is over. -/
  | wake (call : ℕ) (now : ℚ)
  | expire (call : ℕ) (now : ℚ)
  | cancel (call : ℕ)
  /-- The model conversation takes a step. -/
  | model (event : RequestEvent)
  | complete
  | close

namespace ToolSession

/-- The error of a call that is late. -/
def expired (session : ToolSession) (now : ℚ) : ServiceError :=
  (timeoutCode now session.deadline).error

/-- The handlers around one attempt. -/
def handled (session : ToolSession) (now : ℚ) : ToolRaised → ToolRaised
  | .other .timeout => .service (session.expired now)
  | .other .other => .service ErrorCode.dependencyFailure.error
  | raised => raised

/-- A timeout of the retry is reported by the bound it hit, and what the model wrote by its own code. -/
def reported (session : ToolSession) (fromModel : Bool) (now : ℚ) : ToolRaised → ToolRaised
  | .service error =>
      if error.code ∈ timeoutCodes ∧ error.retryable = false then .service (session.expired now)
      else if fromModel && decide (error.code = .invalidInput) then
        .service ErrorCode.invalidToolCall.error
      else .service error
  | raised => raised

/-- The canonical failure of one `tools/call`: the HTTP status chooses the code, and grants retry
permission only for a response that was normalized to an internal error. -/
def callFailure (session : ToolSession) (error : RpcError) (http : Option (Raised Empty)) (now : ℚ) :
    ToolRaised :=
  match error, http with
  | .requestTimeout, _ => .service (session.expired now)
  | _, some (.service failure) =>
      if failure.code ∈ timeoutCodes ∧ failure.retryable = false then .service (session.expired now)
      else .service failure
  | .internalError, some (.transient failure) => .transient failure
  | _, some (.transient failure) => .service failure.code.error
  | .rejected, none => .service ErrorCode.requestRejected.error
  | _, none => .service ErrorCode.dependencyFailure.error

/-- The checks before the first attempt; the deadline of the call. What the model wrote is frozen before
the session sees it. -/
def admits (session : ToolSession) (active : Bool) (name : String) (arguments : Object)
    (fromModel : Bool) (now : ℚ) : Except Exn ℚ :=
  if fromModel && decide (depth (.obj arguments) > MAX_JSON_DEPTH) then fail .invalidInput
  else if !active || !session.names.contains name then fail .forbidden
  else if depth (.obj arguments) > MAX_JSON_DEPTH then fail .invalidInput
  else
    match session.catalog.validateInput name arguments with
    | .error error => .error error
    | .ok () =>
      -- Writes need a durable identity of their effect first.
      if ((session.catalog.tools.lookup name).map DeclaredTool.effect) ≠ some .read then
        fail .invalidConfiguration
      else
        let deadline := min session.deadline (now + session.timeout)
        if deadline ≤ now then .error (.service (session.expired now)) else .ok deadline

end ToolSession

namespace McpTools

/-- Note an entry. -/
def note (s : McpTools) (entry : ToolEntry) : McpTools := { s with log := entry :: s.log }

/-- The call returns or raises. -/
def ended (s : McpTools) (id : ℕ) (outcome : Except ToolRaised Json) : McpTools :=
  { s with calls := Dict.erase id s.calls, log := .ended id outcome :: s.log }

/-- The call raises. -/
def failed (session : ToolSession) (s : McpTools) (id : ℕ) (fromModel : Bool) (raised : ToolRaised)
    (now : ℚ) : McpTools :=
  s.ended id (.error (session.reported fromModel now raised))

/-- `retry` after an attempt that raised. -/
def attemptRaised (session : ToolSession) (s : McpTools) (id : ℕ) (call : ToolCall)
    (raised : ToolRaised) (now jitter : ℚ) : McpTools :=
  match session.handled now raised with
  | .transient failure =>
    if call.attempt = session.retry.maxAttempts then
      s.failed session id call.fromModel (.transient failure) now
    else
      let cap := min session.retry.maxDelaySeconds
        (session.retry.initialDelaySeconds * 2 ^ (call.attempt - 1))
      let delay := max (min jitter cap) (failure.retryAfterSeconds.getD 0)
      if session.retry.maxDelaySeconds < delay ∨ call.deadline - now ≤ delay then
        s.failed session id call.fromModel (.transient failure) now
      else
        let call := { call with attempt := call.attempt + 1, last := some failure, phase := .waiting }
        { s with calls := Dict.set id call s.calls }
  | .service error =>
    match call.last with
    | some failure =>
      if error.code ∈ attemptLimits then s.failed session id call.fromModel (.transient failure) now
      else s.failed session id call.fromModel (.service error) now
    | none => s.failed session id call.fromModel (.service error) now
  | .other exception => s.failed session id call.fromModel (.other exception) now

/-- `retry` before an attempt, and the attempt up to its authorization. -/
def attempt (session : ToolSession) (s : McpTools) (id : ℕ) (call : ToolCall) (now : ℚ) : McpTools :=
  if call.deadline ≤ now then
    s.failed session id call.fromModel (.service ErrorCode.requestTimeout.error) now
  else if s.active then
    { s with calls := Dict.set id { call with phase := .authorizing } s.calls }
  else s.attemptRaised session id call (.service ErrorCode.forbidden.error) now 0

/-- `McpTools.call` up to the first authorization. -/
def call (session : ToolSession) (s : McpTools) (name : String) (arguments : Object)
    (fromModel : Bool)
    (now : ℚ) : McpTools :=
  let id := s.started
  let s := { s with started := id + 1 }
  match session.admits s.active name arguments fromModel now with
  | .error error => s.failed session id fromModel (raisedBy error) now
  | .ok deadline =>
    (s.note (.validated id name arguments)).attempt session id
      { name := name, arguments := arguments, fromModel := fromModel, deadline := deadline } now

/-- The reservation of an authorized attempt, and its request. -/
def send (session : ToolSession) (s : McpTools) (id : ℕ) (call : ToolCall)
    (carrier : List (String × String)) (now jitter : ℚ) : McpTools :=
  if call.deadline ≤ now then s.attemptRaised session id call
    (.service (session.expired now)) now jitter
  else
    match s.model.budget.startToolCall with
    | .error error => s.attemptRaised session id call (raisedBy error) now jitter
    | .ok (ticket, budget) =>
      let s := { s with model := { s.model with budget := budget } }
      let s := s.note (.reserved id call.attempt ticket)
      match session.metadata carrier with
      | .error error => s.attemptRaised session id call (raisedBy error) now jitter
      | .ok metadata =>
        s.note (.sent id call.attempt
          { name := call.name, arguments := call.arguments, metadata := metadata })

/-- An attempt from its authorization to the request, without a suspension between. -/
def authorize (session : ToolSession) (s : McpTools) (id : ℕ) (call : ToolCall)
    (answer : Except ToolRaised Unit) (carrier : List (String × String)) (now jitter : ℚ) :
    McpTools :=
  match answer with
  | .error raised => s.attemptRaised session id call raised now jitter
  | .ok () =>
    let call := { call with phase := .sent }
    let s := { s with calls := Dict.set id call s.calls }
    (s.note (.authorized id call.attempt call.name call.arguments)).send session id call
      carrier now jitter

/-- An attempt from the response on. -/
def reply (session : ToolSession) (s : McpTools) (id : ℕ) (call : ToolCall) (reply : ToolReply)
    (now jitter : ℚ) : McpTools :=
  match reply with
  | .rpcError error http =>
      s.attemptRaised session id call (session.callFailure error http now) now jitter
  | .malformed => s.attemptRaised session id call (.service ErrorCode.invalidOutput.error) now jitter
  | .failed => s.attemptRaised session id call (.other .other) now jitter
  | .inputRequired =>
      if call.deadline ≤ now then
        s.attemptRaised session id call (.service (session.expired now)) now jitter
      else s.attemptRaised session id call (.other .inputRequired) now jitter
  | .result result =>
      if call.deadline ≤ now then
        s.attemptRaised session id call (.service (session.expired now)) now jitter
      else
        match session.catalog.validateResult call.name result with
        | .error error => s.attemptRaised session id call (raisedBy error) now jitter
        | .ok value =>
          let s := s.note (.accepted id call.attempt call.name result value)
          let s := { s with successful := s.successful.insert call.name }
          (s.note (.successful call.name)).ended id (.ok value)

/-- `asyncio.timeout_at` ends an attempt, or the wait of a retry. -/
def expire (session : ToolSession) (s : McpTools) (id : ℕ) (call : ToolCall) (now : ℚ) : McpTools :=
  match call.phase with
  | .waiting => s.failed session id call.fromModel (.service ErrorCode.requestTimeout.error) now
  | .authorizing | .sent => s.attemptRaised session id call (.other .timeout) now 0

/-- The model conversation over these tools: the preparation of a request chooses the tools. -/
def converse (session : ToolSession) (s : McpTools) (event : RequestEvent) : Option McpTools :=
  let take (event : RequestEvent) : Option McpTools :=
    (s.model.step session.limits event).map fun model => { s with model := model }
  match event with
  | .request id outputRetry prepared =>
      take (.request id outputRetry (prepared && (session.policy.settings s.successful).isOk))
  | .toolCall => none
  | event => take event

/-- The conversation ended with an answer. -/
def complete (session : ToolSession) (s : McpTools) : McpTools :=
  match session.policy.validateCompletion s.successful with
  | .ok () => s.note .completed
  | .error _ => s

/-- The session ends. -/
def close (s : McpTools) : McpTools := { s with active := false, log := .closed :: s.log }

/-- The call in this phase. -/
def callIn (s : McpTools) (id : ℕ) (phase : CallPhase) : Option ToolCall :=
  (s.calls.lookup id).filter fun call => call.phase = phase

/-- One event. -/
def step (session : ToolSession) (s : McpTools) : ToolEvent → Option McpTools
  | .call name arguments fromModel now => some (s.call session name arguments fromModel now)
  | .authorize id answer carrier now jitter =>
      (s.callIn id .authorizing).map fun call => s.authorize session id call answer carrier now jitter
  | .reply id reply now jitter =>
      (s.callIn id .sent).map fun call => s.reply session id call reply now jitter
  | .wake id now => (s.callIn id .waiting).map fun call => s.attempt session id call now
  | .expire id now => (s.calls.lookup id).map fun call => s.expire session id call now
  | .cancel id => (s.calls.lookup id).map fun _ => s.ended id (.error (.other .cancelled))
  | .model event => s.converse session event
  | .complete => some (s.complete session)
  | .close => some s.close

/-- A step that opens a session of tools. -/
def machine (session : ToolSession) : Machine McpTools ToolEvent where
  start := { model := (InvocationModel.machine session.limits).start }
  step := step session

end McpTools

end Foliqant.Adapters
