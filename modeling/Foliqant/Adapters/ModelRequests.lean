import Foliqant.Common.Machine
import Foliqant.Core.StepBudget

/-!
# Model requests of a step

`_InvocationModel.request` admits a turn and then tries the provider request, each try with its own
reservation. A step of the model is one run of such a call between two suspension points: the call of
`request`, the admitted try up to the provider request, what comes back from the provider, or the end of
the call. Tool calls and any number of calls may interleave.
-/

namespace Foliqant.Adapters

open Foliqant.Core

/-- A call of `request`; it has a ticket while its provider request is under way. -/
structure RequestCall where
  outputRetry : Bool
  retryCounted : Bool := false
  ticket : Option ℕ := none

/-- The limits of a step. -/
structure StepLimits where
  modelRequests : ℕ
  toolCalls : ℕ
  maxIterations : Option ℕ

/-- The invocation model and its budget, with what has happened: the tickets of the provider requests
that were sent and of those whose usage was recorded, and the turns that are not output retries. -/
structure InvocationModel where
  budget : StepBudget
  iterations : ℕ := 0
  calls : List (ℕ × RequestCall) := []
  sent : List ℕ := []
  recorded : List ℕ := []
  turns : ℕ := 0

/-- What happens to the requests of an invocation. -/
inductive RequestEvent where
  /-- `request` is called; the preparation of its settings and its request may fail. -/
  | request (call : ℕ) (outputRetry prepared : Bool)
  /-- A try is admitted, or it is too late. -/
  | attempt (call : ℕ) (model : String) (pricing : Option ModelPricing) (late : Bool)
  /-- A response; its usage may be refused. -/
  | response (call : ℕ) (usage : Option TokenUsage)
  /-- The provider request failed; a transient failure may be tried again. -/
  | failure (call : ℕ) (transient : Bool)
  /-- The call ends: it is cancelled, or gives up after a failure. -/
  | leave (call : ℕ)
  | toolCall

namespace InvocationModel

/-- An output retry is bounded by the output retries, not by the turns. -/
def admitTurn (limits : StepLimits) (iterations : ℕ) (outputRetry : Bool) : Except Exn ℕ :=
  match limits.maxIterations with
  | none => .ok iterations
  | some limit =>
      if outputRetry then .ok iterations
      else if iterations ≥ limit then fail .iterationLimitReached
      else .ok (iterations + 1)

/-- A request is called. -/
def request (limits : StepLimits) (s : InvocationModel) (id : ℕ) (outputRetry prepared : Bool) :
    InvocationModel :=
  match admitTurn limits s.iterations outputRetry with
  | .error _ => s
  | .ok iterations =>
      { s with
        iterations := iterations
        turns := if outputRetry then s.turns else s.turns + 1
        calls := if prepared then Dict.set id { outputRetry := outputRetry } s.calls else s.calls }

/-- The call raises or returns. -/
def ended (s : InvocationModel) (id : ℕ) : InvocationModel :=
  { s with calls := Dict.erase id s.calls }

/-- `request_once` up to the provider request. -/
def attempt (s : InvocationModel) (id : ℕ) (call : RequestCall) (model : String)
    (pricing : Option ModelPricing) (late : Bool) : InvocationModel :=
  if late then s.ended id
  else
    match s.budget.startModelRequest model (pricing.map ModelPricing.plan) with
    | .error _ => s.ended id
    | .ok (ticket, budget) =>
        let first := call.outputRetry && !call.retryCounted
        { s with
          budget := if first then budget.recordOutputRetry else budget
          calls := Dict.set id
            { call with retryCounted := call.retryCounted || first, ticket := some ticket } s.calls
          sent := s.sent ++ [ticket] }

/-- `request_once` from the response on: whatever follows the recording ends the call. -/
def response (s : InvocationModel) (id ticket : ℕ) (usage : Option TokenUsage) : InvocationModel :=
  match usage with
  | none => s.ended id
  | some usage =>
    match s.budget.finishModelRequest ticket usage with
    | .error _ => s.ended id
    | .ok budget => { s with budget := budget, recorded := s.recorded ++ [ticket] }.ended id

/-- A request fails. -/
def failure (s : InvocationModel) (id : ℕ) (call : RequestCall) (transient : Bool) :
    InvocationModel :=
  if transient then { s with calls := Dict.set id { call with ticket := none } s.calls }
  else s.ended id

/-- A tool is called. -/
def toolCall (s : InvocationModel) : InvocationModel :=
  match s.budget.startToolCall with
  | .error _ => s
  | .ok (_, budget) => { s with budget := budget }

/-- One event. -/
def step (limits : StepLimits) (s : InvocationModel) : RequestEvent → Option InvocationModel
  | .request id outputRetry prepared =>
      if (s.calls.lookup id).isSome then none else some (s.request limits id outputRetry prepared)
  | .attempt id model pricing late =>
      match s.calls.lookup id with
      | some call =>
          if call.ticket.isSome then none else some (s.attempt id call model pricing late)
      | none => none
  | .response id usage => do
      let call ← s.calls.lookup id
      let ticket ← call.ticket
      return s.response id ticket usage
  | .failure id transient => do
      let call ← s.calls.lookup id
      let _ ← call.ticket
      return s.failure id call transient
  | .leave id => (s.calls.lookup id).map fun _ => s.ended id
  | .toolCall => some s.toolCall

/-- A step begins with an empty budget. -/
def machine (limits : StepLimits) : Machine InvocationModel RequestEvent where
  start := { budget := { modelLimit := limits.modelRequests, toolLimit := limits.toolCalls } }
  step := step limits

/-! ## The accounting -/

/-- The requests that were sent and the reservations are the same, and nothing is counted beyond its
limit or twice. -/
structure Accounting (limits : StepLimits) (s : InvocationModel) : Prop where
  modelRequests : s.budget.models.length ≤ limits.modelRequests
  toolCalls : s.budget.tools ≤ limits.toolCalls
  sent : s.sent = List.range' 1 s.budget.models.length
  recorded : s.recorded.Nodup ∧ ∀ ticket ∈ s.recorded, ticket ∈ s.sent
  retries : s.budget.outputRetries ≤ s.budget.models.length
  turns : ∀ limit ∈ limits.maxIterations, s.turns ≤ limit

/-- The snapshot is computed, and it satisfies the public contract of usage. -/
def Public (s : InvocationModel) : Prop :=
  Computes s.budget.models ∧ ∃ value, usageValue (s.budget.snapshot rounded) = .ok value ∧
    usageValid value = true

/-- What the steps of the calls keep. -/
structure Consistent (limits : StepLimits) (s : InvocationModel) : Prop where
  accounting : Accounting limits s
  modelLimit : s.budget.modelLimit = limits.modelRequests
  toolLimit : s.budget.toolLimit = limits.toolCalls
  valid : ∀ attempt ∈ s.budget.models, attempt.Valid
  reported : ∀ index attempt, s.budget.models[index]? = some attempt →
    (attempt.usage.isSome = true ↔ index + 1 ∈ s.recorded)
  iterations : ∀ limit ∈ limits.maxIterations, s.turns = s.iterations

variable {limits : StepLimits} {s : InvocationModel}

/-- The calls in flight are no part of the accounting. -/
theorem Consistent.calls (h : Consistent limits s) (calls : List (ℕ × RequestCall)) :
    Consistent limits { s with calls := calls } where
  accounting := ⟨h.accounting.modelRequests, h.accounting.toolCalls, h.accounting.sent,
    h.accounting.recorded, h.accounting.retries, h.accounting.turns⟩
  modelLimit := h.modelLimit
  toolLimit := h.toolLimit
  valid := h.valid
  reported := h.reported
  iterations := h.iterations

/-- The end of a request. -/
theorem Consistent.ended (h : Consistent limits s) (id : ℕ) : Consistent limits (s.ended id) :=
  h.calls _

/-- The start. -/
theorem consistent_start (limits : StepLimits) : Consistent limits (machine limits).start where
  accounting := ⟨Nat.zero_le _, Nat.zero_le _, rfl, ⟨List.nodup_nil, nofun⟩, le_refl 0,
    fun _ _ => Nat.zero_le _⟩
  modelLimit := rfl
  toolLimit := rfl
  valid _ h := absurd h List.not_mem_nil
  reported _ _ h := by cases h
  iterations _ _ := rfl

/-- A new request. -/
theorem Consistent.request (h : Consistent limits s) (id : ℕ) (outputRetry prepared : Bool) :
    Consistent limits (s.request limits id outputRetry prepared) := by
  unfold InvocationModel.request
  rcases admitted : admitTurn limits s.iterations outputRetry with _ | iterations
  · exact h
  have turns : ∀ limit ∈ limits.maxIterations,
      (if outputRetry then s.turns else s.turns + 1) = iterations ∧ iterations ≤ limit := by
    intro limit mem
    have same := h.iterations limit mem
    have bound := h.accounting.turns limit mem
    unfold admitTurn at admitted
    rw [Option.mem_def.mp mem] at admitted
    rcases outputRetry with _ | _
    · simp only [Bool.false_eq_true, if_false] at admitted ⊢
      split at admitted
      · cases admitted
      · obtain rfl := Except.ok.inj admitted
        omega
    · obtain rfl := Except.ok.inj admitted
      exact ⟨same, same ▸ bound⟩
  have counted : Consistent limits
      { s with
        iterations := iterations
        turns := if outputRetry then s.turns else s.turns + 1 } :=
    { h with
      accounting := { h.accounting with turns := fun limit mem => (turns limit mem).1 ▸
        (turns limit mem).2 }
      iterations := fun limit mem => (turns limit mem).1 }
  exact counted.calls _

/-- An attempt of a request. -/
theorem Consistent.attempt (h : Consistent limits s) (id : ℕ) (call : RequestCall) (model : String)
    (pricing : Option ModelPricing) (late : Bool) :
    Consistent limits (s.attempt id call model pricing late) := by
  unfold InvocationModel.attempt
  split
  · exact h.ended id
  rcases reserved : s.budget.startModelRequest model (pricing.map ModelPricing.plan) with _ | result
  · exact h.ended id
  obtain ⟨ticket, budget⟩ := result
  obtain ⟨named, free, rfl, rfl⟩ := StepBudget.startModelRequest_eq_ok.mp reserved
  rw [h.modelLimit] at free
  have fresh : s.budget.models.length + 1 ∉ s.recorded := by
    intro mem
    have := h.accounting.recorded.2 _ mem
    rw [h.accounting.sent, List.mem_range'_1] at this
    omega
  have valid : ModelAttempt.Valid { model := model, pricing := pricing.map ModelPricing.plan } := by
    refine ⟨named, fun plan priced => ?_⟩
    obtain ⟨configured, -, rfl⟩ := Option.map_eq_some_iff.mp priced
    exact ⟨configured.currency, fun reference mem =>
      isNonBlankText_of_isReferenceModel (configured.referenceModel reference mem)⟩
  have retries := h.accounting.retries
  have sent : s.sent ++ [s.budget.models.length + 1] =
      List.range' 1 (s.budget.models.length + 1) := by
    rw [List.range'_1_concat, h.accounting.sent, Nat.add_comm 1]
  -- The new reservation is unreported, and nothing of the earlier ones changes.
  have reported : ∀ index attempt,
      (s.budget.models ++ [{ model := model, pricing := pricing.map ModelPricing.plan }])[index]? =
        some attempt → (attempt.usage.isSome = true ↔ index + 1 ∈ s.recorded) := by
    intro index attempt found
    rw [List.getElem?_append] at found
    split at found
    · exact h.reported index attempt found
    · have last : index = s.budget.models.length := by
        have := (List.getElem?_eq_some_iff.mp found).1
        rw [List.length_singleton] at this
        omega
      rw [last, Nat.sub_self, List.getElem?_cons_zero] at found
      obtain rfl := Option.some.inj found
      rw [last]
      exact iff_of_false Bool.noConfusion fresh
  have counted (retries' : ℕ) (few : retries' ≤ s.budget.models.length + 1) : Consistent limits
      { s with
        budget :=
          { s.budget with
            models := s.budget.models ++
              [{ model := model, pricing := pricing.map ModelPricing.plan }]
            outputRetries := retries' }
        sent := s.sent ++ [s.budget.models.length + 1] } := by
    refine ⟨⟨?_, h.accounting.toolCalls, ?_, ⟨h.accounting.recorded.1, ?_⟩, ?_, h.accounting.turns⟩,
      h.modelLimit, h.toolLimit, ?_, reported, h.iterations⟩
    · show (s.budget.models ++ [_]).length ≤ _
      rw [List.length_append, List.length_singleton]
      omega
    · show _ = List.range' 1 (s.budget.models ++ [_]).length
      rw [List.length_append, List.length_singleton]
      exact sent
    · exact fun ticket mem => List.mem_append_left _ (h.accounting.recorded.2 ticket mem)
    · show _ ≤ (s.budget.models ++ [_]).length
      rw [List.length_append, List.length_singleton]
      exact few
    · intro attempt mem
      rcases List.mem_append.mp mem with before | here
      · exact h.valid attempt before
      · exact List.mem_singleton.mp here ▸ valid
  dsimp only
  rcases call.outputRetry && !call.retryCounted with _ | _
  · exact (counted s.budget.outputRetries (Nat.le_succ_of_le retries)).calls _
  · exact (counted (s.budget.outputRetries + 1) (Nat.succ_le_succ retries)).calls _

/-- The response to a request. -/
theorem Consistent.response (h : Consistent limits s) (id ticket : ℕ) (usage : Option TokenUsage) :
    Consistent limits (s.response id ticket usage) := by
  unfold InvocationModel.response
  rcases usage with _ | usage
  · exact h.ended id
  dsimp only
  rcases finished : s.budget.finishModelRequest ticket usage with _ | budget
  · exact h.ended id
  obtain ⟨index, attempt, rfl, found, unreported, rfl⟩ :=
    StepBudget.finishModelRequest_eq_ok.mp finished
  have inside : index < s.budget.models.length := (List.getElem?_eq_some_iff.mp found).1
  -- the ticket was not recorded before, so it is recorded once
  have fresh : index + 1 ∉ s.recorded := by
    intro mem
    have := (h.reported index attempt found).mpr mem
    rw [unreported] at this
    cases this
  suffices recorded : Consistent limits
      { s with
        budget :=
          { s.budget with models := s.budget.models.set index { attempt with usage := some usage } }
        recorded := s.recorded ++ [index + 1] } from recorded.ended id
  refine ⟨⟨?_, h.accounting.toolCalls, ?_, ⟨?_, ?_⟩, ?_, h.accounting.turns⟩, h.modelLimit,
    h.toolLimit, ?_, ?_, h.iterations⟩
  · show (s.budget.models.set index _).length ≤ _
    rw [List.length_set]
    exact h.accounting.modelRequests
  · show _ = List.range' 1 (s.budget.models.set index _).length
    rw [List.length_set]
    exact h.accounting.sent
  · exact List.Nodup.append h.accounting.recorded.1 (List.nodup_singleton _)
      (List.disjoint_singleton.mpr fresh)
  · intro ticket mem
    rcases List.mem_append.mp mem with before | here
    · exact h.accounting.recorded.2 ticket before
    · rw [List.mem_singleton.mp here, h.accounting.sent, List.mem_range'_1]
      omega
  · show _ ≤ (s.budget.models.set index _).length
    rw [List.length_set]
    exact h.accounting.retries
  · intro other mem
    rcases List.mem_or_eq_of_mem_set mem with before | rfl
    · exact h.valid other before
    · exact ⟨(h.valid attempt (List.mem_of_getElem? found)).named,
        (h.valid attempt (List.mem_of_getElem? found)).priced⟩
  · intro other attempt' here
    have here : (s.budget.models.set index { attempt with usage := some usage })[other]? =
        some attempt' := here
    rw [List.getElem?_set] at here
    rw [List.mem_append, List.mem_singleton]
    by_cases same : index = other
    · rw [if_pos same, if_pos inside] at here
      obtain rfl := Option.some.inj here
      exact iff_of_true rfl (.inr (by omega))
    · rw [if_neg same] at here
      rw [h.reported other attempt' here]
      exact ⟨.inl, fun either => either.resolve_right (by omega)⟩

/-- A call of a tool. -/
theorem Consistent.toolCall (h : Consistent limits s) : Consistent limits s.toolCall := by
  unfold InvocationModel.toolCall
  rcases reserved : s.budget.startToolCall with _ | result
  · exact h
  obtain ⟨ticket, budget⟩ := result
  obtain ⟨free, -, rfl⟩ := StepBudget.startToolCall_eq_ok.mp reserved
  rw [h.toolLimit] at free
  exact ⟨⟨h.accounting.modelRequests, free, h.accounting.sent, h.accounting.recorded,
    h.accounting.retries, h.accounting.turns⟩, h.modelLimit, h.toolLimit, h.valid, h.reported,
    h.iterations⟩

/-- Every event. -/
theorem Consistent.step (h : Consistent limits s) {event : RequestEvent} {next : InvocationModel}
    (taken : step limits s event = some next) : Consistent limits next := by
  rcases event with ⟨id, outputRetry, prepared⟩ | ⟨id, model, pricing, late⟩ | ⟨id, usage⟩ |
    ⟨id, transient⟩ | id | _
  · obtain ⟨-, taken⟩ := Option.ite_none_left_eq_some.mp taken
    exact Option.some.inj taken ▸ h.request id outputRetry prepared
  · dsimp only [InvocationModel.step] at taken
    split at taken
    · split at taken
      · cases taken
      · exact Option.some.inj taken ▸ h.attempt id _ model pricing late
    · cases taken
  · obtain ⟨call, -, taken⟩ := Option.bind_eq_some_iff.mp taken
    obtain ⟨ticket, -, taken⟩ := Option.bind_eq_some_iff.mp taken
    exact Option.some.inj taken ▸ h.response id ticket usage
  · obtain ⟨call, -, taken⟩ := Option.bind_eq_some_iff.mp taken
    obtain ⟨ticket, -, taken⟩ := Option.bind_eq_some_iff.mp taken
    obtain rfl := Option.some.inj taken
    unfold InvocationModel.failure
    split
    · exact h.calls _
    · exact h.ended id
  · obtain ⟨call, -, rfl⟩ := Option.map_eq_some_iff.mp taken
    exact h.ended id
  · exact Option.some.inj taken ▸ h.toolCall

/-! A request of the model reserves no tool call. -/

/-- A request calls no tool. -/
theorem tools_request (id : ℕ) (outputRetry prepared : Bool) :
    (s.request limits id outputRetry prepared).budget.tools = s.budget.tools := by
  unfold InvocationModel.request
  rcases admitTurn limits s.iterations outputRetry with _ | _ <;> rfl

/-- An attempt calls no tool. -/
theorem tools_attempt (id : ℕ) (call : RequestCall) (model : String) (pricing : Option ModelPricing)
    (late : Bool) : (s.attempt id call model pricing late).budget.tools = s.budget.tools := by
  unfold InvocationModel.attempt
  split
  · rfl
  rcases reserved : s.budget.startModelRequest model (pricing.map ModelPricing.plan) with _ | result
  · rfl
  obtain ⟨ticket, budget⟩ := result
  obtain ⟨-, -, -, rfl⟩ := StepBudget.startModelRequest_eq_ok.mp reserved
  dsimp only
  split <;> rfl

/-- A response calls no tool. -/
theorem tools_response (id ticket : ℕ) (usage : Option TokenUsage) :
    (s.response id ticket usage).budget.tools = s.budget.tools := by
  unfold InvocationModel.response
  rcases usage with _ | usage
  · rfl
  dsimp only
  rcases finished : s.budget.finishModelRequest ticket usage with _ | budget
  · rfl
  obtain ⟨index, attempt, -, -, -, rfl⟩ := StepBudget.finishModelRequest_eq_ok.mp finished
  rfl

/-- Only the call of a tool calls one. -/
theorem tools_of_step {event : RequestEvent} {next : InvocationModel}
    (taken : step limits s event = some next) (other : event ≠ .toolCall) :
    next.budget.tools = s.budget.tools := by
  rcases event with ⟨id, outputRetry, prepared⟩ | ⟨id, model, pricing, late⟩ | ⟨id, usage⟩ |
    ⟨id, transient⟩ | id | _
  · obtain ⟨-, taken⟩ := Option.ite_none_left_eq_some.mp taken
    exact Option.some.inj taken ▸ tools_request id outputRetry prepared
  · dsimp only [InvocationModel.step] at taken
    split at taken
    · split at taken
      · cases taken
      · exact Option.some.inj taken ▸ tools_attempt id _ model pricing late
    · cases taken
  · obtain ⟨call, -, taken⟩ := Option.bind_eq_some_iff.mp taken
    obtain ⟨ticket, -, taken⟩ := Option.bind_eq_some_iff.mp taken
    exact Option.some.inj taken ▸ tools_response id ticket usage
  · obtain ⟨call, -, taken⟩ := Option.bind_eq_some_iff.mp taken
    obtain ⟨ticket, -, taken⟩ := Option.bind_eq_some_iff.mp taken
    obtain rfl := Option.some.inj taken
    unfold InvocationModel.failure
    split <;> rfl
  · obtain ⟨call, -, rfl⟩ := Option.map_eq_some_iff.mp taken
    rfl
  · exact absurd rfl other

/-- Every reachable state. -/
theorem consistent_of_reachable (h : (machine limits).Reachable s) : Consistent limits s :=
  h.invariant (consistent_start limits) fun before taken => before.step taken

/-- In every state of a step the accounting is exact, and its snapshot satisfies the public contract if
and only if the amounts of its requests can be rounded. -/
theorem accounting_iff_amountsFit (limits : StepLimits) (s : InvocationModel)
    (h : (machine limits).Reachable s) :
    (Accounting limits s ∧ Public s) ↔ AmountsFit s.budget.models := by
  have consistent := consistent_of_reachable h
  have contract := snapshot_public_iff consistent.valid consistent.accounting.retries
  exact ⟨fun both => contract.mp both.2, fun fits => ⟨consistent.accounting, contract.mpr fits⟩⟩

/-! A model at the greatest price for input, in a step with one request and one turn. -/

/-- One request and no tool. -/
def exampleLimits : StepLimits where
  modelRequests := 1
  toolCalls := 0
  maxIterations := some 1

/-- A response that reports this many input tokens. -/
def inputOnly (tokens : ℕ) : TokenUsage where
  inputTokens := some tokens
  outputTokens := some 0
  cacheReadInputTokens := none
  cacheWriteInputTokens := none
  cacheRead_le := nofun
  cacheWrite_le := nofun

/-- The state after one request with this response. -/
def exampleReported (tokens : ℕ) : InvocationModel where
  budget :=
    { modelLimit := 1
      toolLimit := 0
      models := [{ model := "model", pricing := some examplePricing.plan, usage := some (inputOnly tokens) }] }
  iterations := 1
  sent := [1]
  recorded := [1]
  turns := 1

/-- The state is reached. -/
theorem exampleReported_reachable (tokens : ℕ) :
    (machine exampleLimits).Reachable (exampleReported tokens) :=
  Machine.Reachable.start.run
    [.request 0 false true, .attempt 0 "model" (some examplePricing) false,
      .response 0 (some (inputOnly tokens))] rfl

/-- The amounts of the example are one dollar. -/
theorem million_inRange {amount : ℚ≥0} (small : amount ≤ 10 ^ 12) :
    amount < ((10 ^ 1000000 : ℕ) : ℚ≥0) := by
  rw [Nat.cast_pow]
  exact lt_of_le_of_lt small (pow_lt_pow_right₀ (by norm_num) (by norm_num))

/-- A list with one element has two prefixes. -/
theorem prefix_singleton {α : Type} {before : List α} {a : α} (h : before <+: [a]) :
    before = [] ∨ before = [a] := by
  rcases before with _ | ⟨b, before⟩
  · exact .inl rfl
  · obtain ⟨rfl, rest⟩ := List.cons_prefix_cons.mp h
    exact .inr (congrArg _ (List.prefix_nil.mp rest))

/-- A request of a million tokens is accounted for. -/
theorem accounting_iff_amountsFit_million : Accounting exampleLimits (exampleReported 1000000) ∧
    Public (exampleReported 1000000) := by
  have known : ∀ total ∈ modelCost (exampleReported 1000000).budget.models "model",
      total.Writable ∧ InRange total.amount := by
    intro total known
    cases known
    refine ⟨fun amount priced => ?_, fun amount priced => million_inRange ?_⟩ <;> cases priced <;>
      decide +kernel
  have none : ∀ model, model ≠ "model" → ofModel model (exampleReported 1000000).budget.models = [] := by
    intro model other
    refine List.filter_eq_nil_iff.mpr fun attempt mem => ?_
    rw [List.mem_singleton.mp mem]
    exact fun equal => other (of_decide_eq_true equal).symm
  have names : modelNames (exampleReported 1000000).budget.models = ["model"] := rfl
  have ranges : ∀ costs : List (Option Cost), costs = [] ∨
      combineAll rounded costs = modelCost (exampleReported 1000000).budget.models "model" →
      InRange ((combineAll rounded costs).bind Cost.amount) := by
    rintro costs (rfl | same) amount mem
    · cases mem
    · rw [same] at mem
      obtain ⟨total, here, mem⟩ := Option.bind_eq_some_iff.mp mem
      exact (known total here).2 amount mem
  refine (accounting_iff_amountsFit exampleLimits _ (exampleReported_reachable 1000000)).mpr
    ⟨⟨?_, fun model before isPrefix => ?_, fun before isPrefix => ?_⟩, fun total all => ?_,
      fun model total all => ?_⟩
  · intro attempt mem plan priced amount all
    obtain rfl := List.mem_singleton.mp mem
    cases priced
    cases all
    exact million_inRange (by decide +kernel)
  · by_cases same : model = "model"
    · subst same
      refine ranges _ ?_
      rcases prefix_singleton isPrefix with rfl | rfl
      · exact .inl rfl
      · exact .inr rfl
    · rw [none model same] at isPrefix
      rw [List.prefix_nil.mp isPrefix]
      exact ranges _ (.inl rfl)
  · rw [names] at isPrefix
    refine ranges _ ?_
    rcases prefix_singleton isPrefix with rfl | rfl
    · exact .inl rfl
    · exact .inr rfl
  · rw [totalCost, names] at all
    exact (known total all).1
  · by_cases same : model = "model"
    · subst same
      exact (known total all).1
    · rw [modelCost, none model same] at all
      cases all

/-- The amount of ten sextillion tokens has 29 digits when it is rounded to millionths. -/
theorem exampleReported_refused : (machine exampleLimits).Reachable (exampleReported (10 ^ 22)) ∧
    ¬ Public (exampleReported (10 ^ 22)) := by
  refine ⟨exampleReported_reachable _, ?_⟩
  rintro ⟨-, value, written, -⟩
  have refused : Except.isOk (usageValue ((exampleReported (10 ^ 22)).budget.snapshot rounded)) =
      false := by
    decide +kernel
  rw [written] at refused
  cases refused

end InvocationModel

end Foliqant.Adapters
