import Foliqant.Core.CollectionLedger
import Foliqant.Core.Pricing
import Foliqant.Core.UsageAlgebra

/-!
# The budget of a step

A request is reserved before it is sent and its usage is recorded at most once; nothing is refunded.
The snapshot of a budget is measured against the public contract of usage.
-/

namespace Foliqant.Core

open JsonText

/-! ## Reservations -/

/-- `str.isspace` of one character. -/
def isBlankChar (c : Char) : Bool :=
  let n := c.toNat
  (9 ≤ n && n ≤ 13) || (28 ≤ n && n ≤ 32) || n == 0x85 || n == 0xA0 || n == 0x1680 ||
    (0x2000 ≤ n && n ≤ 0x200A) || n == 0x2028 || n == 0x2029 || n == 0x202F ||
      n == 0x205F || n == 0x3000

/-- A provider model ID: 1 to 512 characters, not all of them blank. -/
def isModelId (model : String) : Bool :=
  1 ≤ model.length && model.length ≤ 512 && model.toList.any fun c => !isBlankChar c

/-- Reserve one attempt for a provider model ID and return its accounting ticket. -/
def StepBudget.startModelRequest (budget : StepBudget) (model : String)
    (pricing : Option PricingPlan) : Except Exn (ℕ × StepBudget) :=
  if isModelId model = false then fail .invalidConfiguration
  else if budget.models.length ≥ budget.modelLimit then fail .modelRequestLimitReached
  else .ok (budget.models.length + 1,
    { budget with models := budget.models ++ [{ model := model, pricing := pricing }] })

/-- Record measured usage once; this does not refund the reserved attempt. -/
def StepBudget.finishModelRequest (budget : StepBudget) (ticket : ℕ) (usage : TokenUsage) :
    Except Exn StepBudget :=
  match ticket with
  | 0 => fail .conflict
  | index + 1 =>
    match budget.models[index]? with
    | none => fail .conflict
    | some attempt =>
      if attempt.usage.isSome then fail .conflict
      else .ok { budget with models := budget.models.set index { attempt with usage := some usage } }

/-- Reserve an external tool invocation, including an eventual failure. -/
def StepBudget.startToolCall (budget : StepBudget) : Except Exn (ℕ × StepBudget) :=
  if budget.tools ≥ budget.toolLimit then fail .toolCallLimitReached
  else .ok (budget.tools + 1, { budget with tools := budget.tools + 1 })

/-- Count one admitted model request that asks for a corrected invalid output. -/
def StepBudget.recordOutputRetry (budget : StepBudget) : StepBudget :=
  { budget with outputRetries := budget.outputRetries + 1 }

variable {budget budget' : StepBudget} {model : String} {pricing : Option PricingPlan} {ticket : ℕ}
  {usage : TokenUsage}

/-- What a request may start with, and its ticket. -/
theorem StepBudget.startModelRequest_eq_ok :
    budget.startModelRequest model pricing = .ok (ticket, budget') ↔
      isModelId model = true ∧ budget.models.length < budget.modelLimit ∧
        ticket = budget.models.length + 1 ∧
        budget' = { budget with models := budget.models ++
          [{ model := model, pricing := pricing }] } := by
  unfold startModelRequest
  by_cases named : isModelId model = true
  · rw [if_neg (by rw [named]; exact Bool.noConfusion)]
    by_cases full : budget.models.length ≥ budget.modelLimit
    · rw [if_pos full]
      exact iff_of_false nofun fun h => absurd h.2.1 (not_lt.mpr full)
    · rw [if_neg full, Except.ok.injEq, Prod.mk.injEq]
      constructor
      · rintro ⟨rfl, rfl⟩
        exact ⟨named, not_le.mp full, rfl, rfl⟩
      · rintro ⟨-, -, rfl, rfl⟩
        exact ⟨rfl, rfl⟩
  · rw [if_pos (Bool.eq_false_iff.mpr named)]
    exact iff_of_false nofun fun h => named h.1

/-- What a request may finish with. -/
theorem StepBudget.finishModelRequest_eq_ok :
    budget.finishModelRequest ticket usage = .ok budget' ↔
      ∃ index attempt, ticket = index + 1 ∧ budget.models[index]? = some attempt ∧
        attempt.usage = none ∧
        budget' = { budget with models := budget.models.set index { attempt with usage := some usage } } := by
  unfold finishModelRequest
  rcases ticket with _ | index
  · exact iff_of_false nofun fun ⟨_, _, h, _⟩ => by omega
  dsimp only
  rcases found : budget.models[index]? with _ | attempt
  · refine iff_of_false nofun ?_
    rintro ⟨other, attempt, same, here, -⟩
    obtain rfl : index = other := by omega
    rw [found] at here
    cases here
  dsimp only
  rcases reported : attempt.usage with _ | earlier
  · simp only [Option.isSome_none, Bool.false_eq_true, if_false, Except.ok.injEq]
    constructor
    · rintro rfl
      exact ⟨index, attempt, rfl, found, reported, rfl⟩
    · rintro ⟨other, attempt', same, here, -, rfl⟩
      obtain rfl : index = other := by omega
      obtain rfl := Option.some.inj (found.symm.trans here)
      rfl
  · rw [Option.isSome_some, if_pos rfl]
    refine iff_of_false nofun ?_
    rintro ⟨other, attempt', same, here, none, -⟩
    obtain rfl : index = other := by omega
    obtain rfl := Option.some.inj (found.symm.trans here)
    rw [reported] at none
    cases none

/-- What a call of a tool may start with, and its ticket. -/
theorem StepBudget.startToolCall_eq_ok : budget.startToolCall = .ok (ticket, budget') ↔
    budget.tools < budget.toolLimit ∧ ticket = budget.tools + 1 ∧
      budget' = { budget with tools := budget.tools + 1 } := by
  unfold startToolCall
  by_cases full : budget.tools ≥ budget.toolLimit
  · rw [if_pos full]
    exact iff_of_false nofun fun h => absurd h.1 (not_lt.mpr full)
  · rw [if_neg full, Except.ok.injEq, Prod.mk.injEq]
    constructor
    · rintro ⟨rfl, rfl⟩
      exact ⟨not_le.mp full, rfl, rfl⟩
    · rintro ⟨-, rfl, rfl⟩
      exact ⟨rfl, rfl⟩

/-! ## The public contract of usage -/

/-- An integer that is not negative. -/
def isCount : Json → Bool
  | .int n => 0 ≤ n
  | _ => false

/-- A model of a split has at least one request. -/
def isRequestCount : Json → Bool
  | .int n => 1 ≤ n
  | _ => false

/-- The value null. -/
def isNull : Json → Bool
  | .null => true
  | _ => false

/-- A count that may be unmeasured. -/
def isCountOrNull : Json → Bool
  | .null => true
  | value => isCount value

/-- A text that is accepted. -/
def isText (accepts : String → Bool) : Json → Bool
  | .str text => accepts text
  | _ => false

/-- The characters that `\s` matches in a pattern of the contract; unlike `str.isspace` without the
separators from U+001C to U+001F. -/
def isPatternSpace (c : Char) : Bool :=
  let n := c.toNat
  (9 ≤ n && n ≤ 13) || n == 32 || n == 0x85 || n == 0xA0 || n == 0x1680 ||
    (0x2000 ≤ n && n ≤ 0x200A) || n == 0x2028 || n == 0x2029 || n == 0x202F ||
      n == 0x205F || n == 0x3000

/-- 1 to 512 characters, one of them not a space of the pattern. -/
def isNonBlankText (text : String) : Bool :=
  1 ≤ text.length && text.length ≤ 512 && text.toList.any fun c => !isPatternSpace c

/-- A member that must be there. -/
def requires (members : Object) (key : String) (accepts : Json → Bool) : Bool :=
  ((members.lookup key).map accepts).getD false

/-- A member that may be left out. -/
def allows (members : Object) (key : String) (accepts : Json → Bool) : Bool :=
  ((members.lookup key).map accepts).getD true

/-- The count of a member that was reported. -/
def reportedCount (members : Object) (key : String) : Option ℕ :=
  match members.lookup key with
  | some (.int n) => some n.toNat
  | _ => none

/-- A nonnegative estimate, or null. -/
def isCost : Json → Bool
  | .null => true
  | .float x => 0 ≤ x
  | _ => false

/-- A truth value that may be missing. -/
def isFlag : Json → Bool
  | .null => true
  | .bool _ => true
  | _ => false

/-- The cost fields occur together, the completeness describes the presence of a cost, and a reference
model needs an estimate. -/
def costFieldsTogether (members : Object) : Bool :=
  let present (key : String) : Bool := (members.lookup key).isSome
  let priced := ["cost", "cost_complete", "currency"]
  (!priced.any present || priced.all present) &&
    (!present "reference_model" ||
      present "currency" && requires members "reference_model" (isText (· ≠ ""))) &&
    (!present "currency" ||
      match members.lookup "currency", members.lookup "cost_complete", members.lookup "cost" with
      | some (.str _), some (.bool complete), cost =>
          complete == match cost with
            | some .null | none => false
            | some _ => true
      | _, _, _ => false)

/-- The contract of the cost fields. -/
def pricedUsageValid (members : Object) : Bool :=
  allows members "cost" isCost && allows members "cost_complete" isFlag &&
    allows members "currency" (isText (· == "USD")) &&
    allows members "reference_model" (isText isNonBlankText) && costFieldsTogether members

/-- The keys of a cost. -/
def costKeys : List String := ["cost", "cost_complete", "currency", "reference_model"]

/-- No component is more than its total. -/
def subsetsValid (input output cacheRead cacheWrite reasoning : Option ℕ) : Bool :=
  decide (Within cacheRead input) && decide (Within cacheWrite input) &&
    decide (Within reasoning output)

/-- The contract of the usage of one provider model. -/
def modelUsageValid : Json → Bool
  | .obj members =>
      members.all (fun member =>
        (["requests", "input_tokens", "cached_input_tokens", "output_tokens", "reasoning_tokens"] ++
          costKeys).contains member.1) &&
        requires members "requests" isRequestCount &&
        requires members "input_tokens" isCountOrNull &&
        requires members "cached_input_tokens" isCountOrNull &&
        requires members "output_tokens" isCountOrNull &&
        requires members "reasoning_tokens" isCountOrNull && pricedUsageValid members &&
        subsetsValid (reportedCount members "input_tokens") (reportedCount members "output_tokens")
          (reportedCount members "cached_input_tokens") none
          (reportedCount members "reasoning_tokens")
  | _ => false

/-- The requests that a member reports. -/
def requestsOf : Json → ℕ
  | .obj members => (reportedCount members "requests").getD 0
  | _ => 0

/-- A member that reports a currency. -/
def hasCurrency : Json → Bool
  | .obj members => requires members "currency" fun value => !isNull value
  | _ => false

/-- The models of a split have names of 1 to 512 characters and account for every model request. -/
def byModelValid (modelRequests : ℕ) : Json → Bool
  | .obj models =>
      !models.isEmpty &&
        models.all (fun entry =>
          1 ≤ entry.1.length && entry.1.length ≤ 512 && modelUsageValid entry.2) &&
        modelRequests == (models.map fun entry => requestsOf entry.2).sum
  | _ => false

/-- A total cost requires a priced model. -/
def pricedModelValid (members : Object) : Bool :=
  (members.lookup "currency").isNone ||
    match members.lookup "by_model" with
    | some (.obj models) => models.any fun entry => hasCurrency entry.2
    | _ => false

/-- The contract of measured totals. -/
def usageValid : Json → Bool
  | .obj members =>
      members.all (fun member =>
        (["model_requests", "tool_calls", "output_retries", "input_tokens", "output_tokens",
          "cache_read_input_tokens", "cache_write_input_tokens", "reasoning_output_tokens",
          "by_model"] ++ costKeys).contains member.1) &&
        requires members "model_requests" isCount && requires members "tool_calls" isCount &&
        requires members "output_retries" isCount &&
        requires members "input_tokens" isCountOrNull &&
        requires members "output_tokens" isCountOrNull &&
        requires members "cache_read_input_tokens" isCountOrNull &&
        requires members "cache_write_input_tokens" isCountOrNull &&
        requires members "reasoning_output_tokens" isCountOrNull && pricedUsageValid members &&
        subsetsValid (reportedCount members "input_tokens") (reportedCount members "output_tokens")
          (reportedCount members "cache_read_input_tokens")
          (reportedCount members "cache_write_input_tokens")
          (reportedCount members "reasoning_output_tokens") &&
        (reportedCount members "output_retries").getD 0 ≤
          (reportedCount members "model_requests").getD 0 &&
        allows members "by_model" (byModelValid ((reportedCount members "model_requests").getD 0)) &&
        pricedModelValid members
  | _ => false

/-! ## Snapshots satisfy the contract -/

/-- Estimates that the contract admits: in the one currency, with a reference model that is not
blank. -/
def Admitted (cost : Option Cost) : Prop :=
  ∀ priced ∈ cost, priced.currency = "USD" ∧
    ∀ reference ∈ priced.referenceModel, isNonBlankText reference = true

/-- A written count is reported. -/
theorem reportedCount_countValue {members : Object} {key : String} {count : Option ℕ}
    (found : members.lookup key = some (countValue count)) : reportedCount members key = count := by
  unfold reportedCount
  rw [found]
  rcases count with _ | n <;> simp [countValue]

/-- A written count is one. -/
theorem isCountOrNull_countValue (count : Option ℕ) : isCountOrNull (countValue count) = true := by
  rcases count with _ | n <;> simp [countValue, isCountOrNull, isCount]

/-- The members of an estimate, by what it knows. -/
theorem costMembers_eq_ok {cost : Option Cost} {members : Object}
    (h : costMembers cost = .ok members) :
    (cost = none ∧ members = []) ∨ ∃ priced amount, cost = some priced ∧
      members = [("cost", amount), ("cost_complete", .bool priced.amount.isSome),
        ("currency", .str priced.currency)] ++
          presentMembers [("reference_model", priced.referenceModel.map .str)] ∧
      ((priced.amount = none ∧ amount = .null) ∨
        (priced.amount.isSome = true ∧ ∃ rounded : ℚ, 0 ≤ rounded ∧ amount = .float rounded)) := by
  rcases cost with _ | priced
  · obtain rfl := Except.ok.inj h
    exact .inl ⟨rfl, rfl⟩
  · right
    rcases priced with ⟨currency, _ | exact, reference⟩
    · obtain ⟨amount, known, rest⟩ := Except.bind_eq_ok.mp h
      obtain rfl := Except.pure_eq_ok.mp known
      exact ⟨_, .null, rfl, (Except.pure_eq_ok.mp rest).symm, .inl ⟨rfl, rfl⟩⟩
    · obtain ⟨rounded, quantized, rest⟩ := Except.bind_eq_ok.mp h
      refine ⟨_, .float rounded, rfl, (Except.pure_eq_ok.mp rest).symm, .inr ⟨rfl, rounded, ?_, rfl⟩⟩
      unfold quantize at quantized
      split at quantized
      · rw [← Except.ok.inj quantized]
        positivity
      · cases quantized

/-- The members of an estimate have the keys of cost fields. -/
theorem lookup_costMembers {cost : Option Cost} {members : Object}
    (h : costMembers cost = .ok members)
    {key : String} (other : key ∉ costKeys) : members.lookup key = none := by
  have apart : "cost" ≠ key ∧ "cost_complete" ≠ key ∧ "currency" ≠ key ∧ "reference_model" ≠ key := by
    simp only [costKeys, List.mem_cons, not_or] at other
    grind
  obtain ⟨first, second, third, fourth⟩ := apart
  rw [Dict.lookup_eq_none]
  rcases costMembers_eq_ok h with ⟨-, rfl⟩ | ⟨priced, amount, -, rfl, -⟩
  · exact List.not_mem_nil
  · rcases priced.referenceModel with _ | reference <;>
      simp [presentMembers, Dict.keys, Ne.symm first, Ne.symm second, Ne.symm third, Ne.symm fourth]

/-- The cost fields of an admitted estimate are valid beside members with other keys. -/
theorem pricedUsageValid_costMembers {cost : Option Cost} {members base after : Object}
    (h : costMembers cost = .ok members) (admitted : Admitted cost)
    (apart : ∀ key ∈ costKeys, base.lookup key = none ∧ after.lookup key = none) :
    pricedUsageValid (base ++ members ++ after) = true ∧
      (base ++ members ++ after).lookup "currency" = cost.map fun priced => .str priced.currency := by
  have reads : ∀ key ∈ costKeys, (base ++ members ++ after).lookup key = members.lookup key := by
    intro key mem
    rw [List.lookup_append, List.lookup_append, (apart key mem).1, (apart key mem).2]
    simp
  have first := reads "cost" (by simp [costKeys])
  have second := reads "cost_complete" (by simp [costKeys])
  have third := reads "currency" (by simp [costKeys])
  have fourth := reads "reference_model" (by simp [costKeys])
  unfold pricedUsageValid costFieldsTogether requires allows
  simp only [first, second, third, fourth, List.any_cons, List.any_nil, List.all_cons, List.all_nil]
  rcases costMembers_eq_ok h with ⟨rfl, rfl⟩ | ⟨priced, amount, rfl, rfl, known⟩
  · simp
  · obtain ⟨currency, reference⟩ := admitted priced rfl
    rcases hreference : priced.referenceModel with _ | model
    · rcases known with ⟨known, rfl⟩ | ⟨known, rounded, nonneg, rfl⟩ <;>
        simp [presentMembers, List.lookup_cons, isCost, isFlag, isText, currency, known]
      exact nonneg
    · have named := reference model hreference
      have nonempty : model ≠ "" := by
        rintro rfl
        exact absurd named (by decide)
      rcases known with ⟨known, rfl⟩ | ⟨known, rounded, nonneg, rfl⟩ <;>
        simp [presentMembers, List.lookup_cons, isCost, isFlag, isText, currency,
          known, named, nonempty]
      exact nonneg

/-- The keys of a written cost. -/
theorem keys_costMembers {cost : Option Cost} {members : Object}
    (h : costMembers cost = .ok members) :
    ∀ member ∈ members, member.1 ∈ costKeys := by
  intro member mem
  by_contra other
  exact absurd (List.mem_map_of_mem mem) (Dict.lookup_eq_none.mp (lookup_costMembers h other))

/-- Allowed keys of two parts. -/
theorem all_keys_append {base members after : Object} {allowed : List String}
    (hbase : ∀ member ∈ base, member.1 ∈ allowed) (hmembers : ∀ member ∈ members, member.1 ∈ costKeys)
    (hafter : ∀ member ∈ after, member.1 ∈ allowed) :
    (base ++ members ++ after).all (fun member => (allowed ++ costKeys).contains member.1) =
    true := by
  rw [List.all_eq_true]
  intro member mem
  rw [List.contains_iff_mem, List.mem_append]
  rw [List.mem_append, List.mem_append] at mem
  rcases mem with (mem | mem) | mem
  · exact .inl (hbase member mem)
  · exact .inr (hmembers member mem)
  · exact .inl (hafter member mem)

/-- A required member among more. -/
theorem requires_append {base members after : Object} {key : String} {value : Json}
    {accepts : Json → Bool} (found : base.lookup key = some value) (accepted : accepts value = true) :
    requires (base ++ members ++ after) key accepts = true := by
  unfold requires
  rw [List.lookup_append, List.lookup_append, found]
  exact accepted

/-- A reported count among more members. -/
theorem reportedCount_append {base members after : Object} {key : String} {count : Option ℕ}
    (found : base.lookup key = some (countValue count)) :
    reportedCount (base ++ members ++ after) key = count := by
  apply reportedCount_countValue
  rw [List.lookup_append, List.lookup_append, found]
  rfl

/-- The counts of one provider model. -/
def ModelUsage.members (usage : ModelUsage) : Object :=
  [("requests", .int usage.requests), ("input_tokens", countValue usage.tokens.inputTokens),
    ("cached_input_tokens", countValue usage.tokens.cacheReadInputTokens),
    ("output_tokens", countValue usage.tokens.outputTokens),
    ("reasoning_tokens", countValue usage.tokens.reasoningOutputTokens)]

/-- Counts that are within each other. -/
theorem subsetsValid_of {input output cacheRead cacheWrite reasoning : Option ℕ}
    (first : Within cacheRead input) (second : Within cacheWrite input)
    (third : Within reasoning output) :
    subsetsValid input output cacheRead cacheWrite reasoning = true := by
  simp [subsetsValid, first, second, third]

/-- The written usage of a model is valid. -/
theorem modelUsageValid_modelUsageValue {usage : ModelUsage} {value : Json}
    (h : modelUsageValue usage = .ok value) (admitted : Admitted usage.cost) :
    modelUsageValid value = true ∧ requestsOf value = usage.requests ∧
      hasCurrency value = usage.cost.isSome := by
  obtain ⟨members, cost, written⟩ := Except.bind_eq_ok.mp h
  obtain rfl : .obj (usage.members ++ members ++ []) = value := by
    rw [List.append_nil]
    exact Except.pure_eq_ok.mp written
  obtain ⟨priced, currency⟩ := @pricedUsageValid_costMembers _ _ usage.members [] cost admitted
    (by simp [ModelUsage.members, costKeys, List.lookup_cons])
  have keys := @all_keys_append usage.members members []
    ["requests", "input_tokens", "cached_input_tokens", "output_tokens", "reasoning_tokens"]
    (by simp [ModelUsage.members]) (keys_costMembers cost) (by simp)
  have positive : isRequestCount (.int usage.requests) = true := by
    have := usage.requests_pos
    simp only [isRequestCount, decide_eq_true_eq]
    omega
  have counts : ∀ key count, usage.members.lookup key = some (countValue count) →
      requires (usage.members ++ members ++ []) key isCountOrNull = true :=
    fun _ count found => requires_append found (isCountOrNull_countValue count)
  refine ⟨?_, rfl, ?_⟩
  · unfold modelUsageValid
    dsimp only
    rw [keys, priced, @requires_append usage.members members [] "requests" _
        isRequestCount rfl positive,
      counts "input_tokens" _ rfl, counts "cached_input_tokens" _ rfl, counts "output_tokens" _ rfl,
      counts "reasoning_tokens" _ rfl]
    rw [@reportedCount_append _ _ _ "input_tokens" usage.tokens.inputTokens rfl,
      @reportedCount_append _ _ _ "output_tokens" usage.tokens.outputTokens rfl,
      @reportedCount_append _ _ _ "cached_input_tokens" usage.tokens.cacheReadInputTokens rfl,
      @reportedCount_append _ _ _ "reasoning_tokens" usage.tokens.reasoningOutputTokens rfl]
    exact subsetsValid_of usage.tokens.cacheRead_le (fun _ => nofun) usage.tokens.reasoning_le
  · unfold hasCurrency requires
    dsimp only
    rw [currency]
    rcases usage.cost with _ | priced <;> rfl

/-- What the contract asks of the models of a split, of their values. -/
theorem byModelValue_valid {byModel : ByModel} {models : Object}
    (h : byModelValue byModel = .ok models)
    (admitted : ∀ entry ∈ byModel, Admitted entry.2.cost)
    (named : ∀ entry ∈ byModel, 1 ≤ entry.1.length ∧ entry.1.length ≤ 512) :
    models.all (fun entry =>
        1 ≤ entry.1.length && entry.1.length ≤ 512 && modelUsageValid entry.2) = true ∧
      models.map (fun entry => requestsOf entry.2) = byModel.map (fun entry => entry.2.requests) ∧
      models.any (fun entry => hasCurrency entry.2) =
      byModel.any (fun entry => entry.2.cost.isSome) := by
  induction byModel generalizing models with
  | nil =>
    obtain rfl := Except.ok.inj h
    exact ⟨rfl, rfl, rfl⟩
  | cons entry byModel ih =>
    rw [List.forall_mem_cons] at admitted named
    obtain ⟨value, first, rest⟩ := Except.bind_eq_ok.mp h
    obtain ⟨others, remaining, written⟩ := Except.bind_eq_ok.mp rest
    obtain rfl := Except.pure_eq_ok.mp written
    obtain ⟨valid, requests, currency⟩ := modelUsageValid_modelUsageValue first admitted.1
    obtain ⟨allValid, allRequests, anyCurrency⟩ := ih remaining admitted.2 named.2
    refine ⟨?_, ?_, ?_⟩
    · rw [List.all_cons, allValid, valid]
      simp [named.1.1, named.1.2]
    · rw [List.map_cons, List.map_cons, requests, allRequests]
    · rw [List.any_cons, List.any_cons, currency, anyCurrency]

/-- The measured counts of a total. -/
def Usage.members (usage : Usage) : Object :=
  [("model_requests", .int usage.modelRequests), ("tool_calls", .int usage.toolCalls),
    ("output_retries", .int usage.outputRetries),
    ("input_tokens", countValue usage.tokens.inputTokens),
    ("output_tokens", countValue usage.tokens.outputTokens),
    ("cache_read_input_tokens", countValue usage.tokens.cacheReadInputTokens),
    ("cache_write_input_tokens", countValue usage.tokens.cacheWriteInputTokens),
    ("reasoning_output_tokens", countValue usage.tokens.reasoningOutputTokens)]

/-- A total that the contract admits. -/
structure Usage.Admitted (usage : Usage) : Prop where
  cost : Core.Admitted (usage.cost rounded)
  models : ∀ entry ∈ usage.byModel, Core.Admitted entry.2.cost
  named : ∀ entry ∈ usage.byModel, 1 ≤ entry.1.length ∧ entry.1.length ≤ 512
  requests : (usage.byModel.map fun entry => entry.2.requests).sum = usage.modelRequests
  priced : (usage.cost rounded).isSome = usage.byModel.any fun entry => entry.2.cost.isSome
  retries : usage.outputRetries ≤ usage.modelRequests

/-- A written usage is valid. -/
theorem usageValid_usageValue {usage : Usage} {value : Json} (h : usageValue usage = .ok value)
    (admitted : usage.Admitted) : usageValid value = true := by
  obtain ⟨members, cost, rest⟩ := Except.bind_eq_ok.mp h
  obtain ⟨models, split, written⟩ := Except.bind_eq_ok.mp rest
  -- the value is the counts, then the cost, then the models; each part is validated on its own
  obtain ⟨after, hafter⟩ : ∃ after : Object,
      after = if models = [] then [] else [("by_model", .obj models)] := ⟨_, rfl⟩
  obtain rfl : .obj (usage.members ++ members ++ after) = value := by
    rw [hafter]
    exact Except.pure_eq_ok.mp written
  obtain ⟨valid, requests, anyCurrency⟩ := byModelValue_valid split admitted.models admitted.named
  have apart : ∀ key, key ≠ "by_model" → after.lookup key = none := by
    intro key other
    rw [hafter]
    split
    · rfl
    · rw [List.lookup_cons, beq_false_of_ne other]
      rfl
  obtain ⟨priced, currency⟩ :=
      @pricedUsageValid_costMembers _ _ usage.members after cost admitted.cost
    (by
      intro key mem
      refine ⟨?_, apart key ?_⟩
      · revert key
        simp [Usage.members, costKeys, List.lookup_cons]
      · rintro rfl
        simp [costKeys] at mem)
  have keys := @all_keys_append usage.members members after
    ["model_requests", "tool_calls", "output_retries", "input_tokens", "output_tokens",
      "cache_read_input_tokens", "cache_write_input_tokens", "reasoning_output_tokens", "by_model"]
    (by simp [Usage.members]) (keys_costMembers cost) (by rw [hafter]; split <;> simp)
  have counts : ∀ key count, usage.members.lookup key = some (countValue count) →
      requires (usage.members ++ members ++ after) key isCountOrNull = true :=
    fun _ count found => requires_append found (isCountOrNull_countValue count)
  have known : ∀ key count, usage.members.lookup key = some (countValue (some count)) →
      requires (usage.members ++ members ++ after) key isCount = true :=
    fun _ count found => requires_append found (by simp [countValue, isCount])
  have modelsFound : (usage.members ++ members ++ after).lookup "by_model" =
      after.lookup "by_model" := by
    rw [List.lookup_append, List.lookup_append, lookup_costMembers cost (by simp [costKeys])]
    rfl
  have requestsValid : allows (usage.members ++ members ++ after) "by_model"
      (byModelValid usage.modelRequests) = true := by
    unfold allows
    rw [modelsFound, hafter]
    split
    case isTrue => rfl
    case isFalse nonempty =>
      rw [List.lookup_cons_self]
      simp only [Option.map_some, Option.getD_some, byModelValid, valid, requests, admitted.requests]
      simp [nonempty]
  -- a total cost needs a priced model, and the models are there with it
  have pricedValid : pricedModelValid (usage.members ++ members ++ after) = true := by
    unfold pricedModelValid
    rw [currency, modelsFound]
    rcases costed : usage.cost rounded with _ | total
    · rfl
    · have someModel := admitted.priced
      rw [costed, Option.isSome_some, ← anyCurrency] at someModel
      rw [hafter, if_neg (by rintro rfl; exact Bool.noConfusion someModel), List.lookup_cons_self]
      exact someModel.symm
  unfold usageValid
  dsimp only
  rw [keys, priced, pricedValid, known "model_requests" usage.modelRequests rfl,
    known "tool_calls" usage.toolCalls rfl, known "output_retries" usage.outputRetries rfl,
    counts "input_tokens" _ rfl, counts "output_tokens" _ rfl, counts "cache_read_input_tokens" _ rfl,
    counts "cache_write_input_tokens" _ rfl, counts "reasoning_output_tokens" _ rfl,
    @reportedCount_append _ _ _ "model_requests" (some usage.modelRequests) rfl,
    @reportedCount_append _ _ _ "output_retries" (some usage.outputRetries) rfl,
    @reportedCount_append _ _ _ "input_tokens" usage.tokens.inputTokens rfl,
    @reportedCount_append _ _ _ "output_tokens" usage.tokens.outputTokens rfl,
    @reportedCount_append _ _ _ "cache_read_input_tokens" usage.tokens.cacheReadInputTokens rfl,
    @reportedCount_append _ _ _ "cache_write_input_tokens" usage.tokens.cacheWriteInputTokens rfl,
    @reportedCount_append _ _ _ "reasoning_output_tokens" usage.tokens.reasoningOutputTokens rfl,
    subsetsValid_of usage.tokens.cacheRead_le usage.tokens.cacheWrite_le usage.tokens.reasoning_le,
    Option.getD_some, Option.getD_some, requestsValid]
  simpa using admitted.retries

/-! ## Reserved requests -/

/-- A request that `startModelRequest` admits, with prices that a model profile admits. -/
structure ModelAttempt.Valid (attempt : ModelAttempt) : Prop where
  named : isModelId attempt.model = true
  priced : ∀ plan ∈ attempt.pricing, plan.currency = "USD" ∧
    ∀ reference ∈ plan.referenceModel, isNonBlankText reference = true

/-- Characters are ordered by their numbers. -/
theorem char_toNat_le {a b : Char} (h : decide (a ≤ b) = true) : a.toNat ≤ b.toNat :=
  UInt32.le_iff_toNat_le.mp (of_decide_eq_true h)

/-- A letter or digit is not a space. -/
theorem isPatternSpace_alphanumeric {c : Char} (h : (isUpper c || isLower c || isDigit c) = true) :
    isPatternSpace c = false := by
  simp only [isUpper, isLower, isDigit, Bool.or_eq_true, Bool.and_eq_true] at h
  have range : 48 ≤ c.toNat ∧ c.toNat ≤ 122 := by
    rcases h with (⟨low, high⟩ | ⟨low, high⟩) | ⟨low, high⟩ <;>
      have low := char_toNat_le low <;> have high := char_toNat_le high <;>
      simp only [Char.reduceToNat] at low high <;> omega
  unfold isPatternSpace
  simp only [Bool.or_eq_false_iff, Bool.and_eq_false_iff, decide_eq_false_iff_not,
    beq_eq_false_iff_ne]
  omega

/-- The name of a model is not blank. -/
theorem isNonBlankText_of_isReferenceModel {text : String} (h : isReferenceModel text = true) :
    isNonBlankText text = true := by
  unfold isReferenceModel at h
  unfold isNonBlankText
  rw [← String.length_toList]
  generalize text.toList = chars at h ⊢
  rcases chars with _ | ⟨first, rest⟩
  · cases h
  simp only [Bool.and_eq_true, decide_eq_true_eq] at h
  rw [List.any_cons, isPatternSpace_alphanumeric h.1.1]
  simp only [List.length_cons, Bool.not_false, Bool.true_or, Bool.and_true, Bool.and_eq_true,
    decide_eq_true_eq]
  omega

/-- The models of requests, by name. -/
def modelNames (attempts : List ModelAttempt) : List String :=
  ((attempts.map ModelAttempt.model).dedup).insertionSort (· ≤ ·)

/-- The estimate of all requests to a model, added in the order of the requests. -/
def modelCost (attempts : List ModelAttempt) (model : String) : Option Cost :=
  combineAll rounded ((ofModel model attempts).map (ModelAttempt.cost rounded))

/-- The estimate over the models, added in the order of their names. -/
def totalCost (attempts : List ModelAttempt) : Option Cost :=
  combineAll rounded ((modelNames attempts).map (modelCost attempts))

/-- The amount is below the greatest exponent of the decimals, above which an operation is trapped. -/
def InRange (amount : Option ℚ≥0) : Prop :=
  ∀ x ∈ amount, x < ((10 ^ 1000000 : ℕ) : ℚ≥0)

/-- No decimal operation is trapped: at a request the last sum is the greatest result, and the estimates
are added one after the other at each model and then over the models. -/
structure Computes (attempts : List ModelAttempt) : Prop where
  requests : ∀ attempt ∈ attempts, ∀ plan ∈ attempt.pricing,
    InRange (attempt.usage.bind (plan.total rounded))
  models : ∀ model before, before <+: ofModel model attempts →
    InRange ((combineAll rounded (before.map (ModelAttempt.cost rounded))).bind Cost.amount)
  total : ∀ before, before <+: modelNames attempts →
    InRange ((combineAll rounded (before.map (modelCost attempts))).bind Cost.amount)

/-- The amounts of the requests, added with 28 digits at each model and then over the models, have at
most 28 digits when they are rounded to millionths. -/
structure AmountsFit (attempts : List ModelAttempt) : Prop where
  computes : Computes attempts
  total : ∀ total ∈ totalCost attempts, total.Writable
  models : ∀ model, ∀ total ∈ modelCost attempts model, total.Writable

/-- A sum of admitted estimates is admitted. -/
theorem Admitted.combine {round : ℚ≥0 → ℚ≥0} {left right : Option Cost} (hleft : Admitted left)
    (hright : Admitted right) : Admitted (Cost.combine round left right) := by
  rcases left with _ | a <;> rcases right with _ | b
  · nofun
  · rintro _ ⟨⟩
    exact hright b rfl
  · rintro _ ⟨⟩
    exact hleft a rfl
  · rw [combine_some (hleft a rfl).1 (hright b rfl).1]
    rintro _ ⟨⟩
    refine ⟨rfl, ?_⟩
    unfold sharedReference
    split
    · exact (hleft a rfl).2
    · nofun

/-- A sum is priced when one of its parts is. -/
theorem combine_isSome (left right : Option Cost) :
    (Cost.combine rounded left right).isSome = (left.isSome || right.isSome) := by
  rcases left with _ | a <;> rcases right with _ | b <;> try rfl
  simp only [Cost.combine]
  split <;> rfl

/-- The combination of estimates is priced when one of them is. -/
theorem combineAll_isSome (costs : List (Option Cost)) :
    (combineAll rounded costs).isSome = costs.any Option.isSome := by
  have fold : ∀ (rest : List (Option Cost)) (cost : Option Cost),
      (rest.foldl (Cost.combine rounded) cost).isSome = (cost.isSome || rest.any Option.isSome) := by
    intro rest
    induction rest with
    | nil =>
      intro cost
      rw [List.any_nil, Bool.or_false]
      rfl
    | cons next rest ih =>
      intro cost
      rw [List.foldl_cons, ih, combine_isSome, List.any_cons, Bool.or_assoc]
  rcases costs with _ | ⟨cost, rest⟩
  · rfl
  · exact fold rest cost

/-- The estimate of usage combines those of its models. -/
theorem Usage.cost_combineAll (usage : Usage) :
    usage.cost rounded = combineAll rounded (usage.byModel.map fun entry => entry.2.cost) := by
  rw [Usage.cost_eq, combineAll_eq]
  rfl

/-- A snapshot has the tool calls and the output retries of its budget. -/
theorem StepBudget.snapshot_counts (budget : StepBudget) :
    (budget.snapshot rounded).toolCalls = budget.tools ∧
      (budget.snapshot rounded).outputRetries = budget.outputRetries :=
  @StepBudget.snapshot_induction rounded
    (fun usage _ => usage.toolCalls = budget.tools ∧
      usage.outputRetries = budget.outputRetries) budget
    ⟨rfl, rfl⟩ fun _ _ _ _ ⟨tools, retries⟩ =>
      ⟨(Nat.add_zero _).trans tools, (Nat.add_zero _).trans retries⟩

variable {attempts : List ModelAttempt}

/-- The estimates of valid requests are admitted. -/
theorem admitted_costs (valid : ∀ attempt ∈ attempts, attempt.Valid) :
    ∀ cost ∈ attempts.map (ModelAttempt.cost rounded), Admitted cost := by
  intro cost mem priced known
  obtain ⟨attempt, here, rfl⟩ := List.mem_map.mp mem
  obtain ⟨plan, hplan, rfl⟩ := Option.map_eq_some_iff.mp known
  exact (valid attempt here).priced plan hplan

/-- A combination of admitted estimates is admitted. -/
theorem admitted_combineAll {costs : List (Option Cost)} (admitted : ∀ cost ∈ costs, Admitted cost) :
    Admitted (combineAll rounded costs) := by
  rcases costs with _ | ⟨cost, rest⟩
  · nofun
  · exact List.of_sumBy? Admitted.combine admitted rfl

/-- The estimate of a model is admitted. -/
theorem admitted_modelCost (valid : ∀ attempt ∈ attempts, attempt.Valid) (model : String) :
    Admitted (modelCost attempts model) :=
  admitted_combineAll (admitted_costs fun attempt mem => valid attempt (List.mem_of_mem_filter mem))

/-- Valid requests are priced in USD. -/
theorem pricedIn_usd (valid : ∀ attempt ∈ attempts, attempt.Valid) : PricedIn "USD" attempts :=
  fun attempt mem plan priced => ((valid attempt mem).priced plan priced).1

/-- What a model of the snapshot sums up. -/
theorem snapshot_entry (valid : ∀ attempt ∈ budget.models, attempt.Valid)
    {entry : String × ModelUsage} (mem : entry ∈ (budget.snapshot rounded).byModel) :
    ofModel entry.1 budget.models ≠ [] ∧ entry.2.cost = modelCost budget.models entry.1 := by
  have counts := @counts_snapshot rounded _ _ (pricedIn_usd valid)
  have found := Dict.lookup_of_mem counts.normal.sorted.nodup mem
  rw [counts.models] at found
  constructor
  · intro empty
    rw [empty] at found
    cases found
  · rw [modelCost, combineAll_eq]
    have costs := congrArg (Option.map ModelUsage.cost) found
    have sums : ∀ left right : ModelUsage,
        (left.plus rounded right).cost = Cost.combine rounded left.cost right.cost := fun _ _ => rfl
    rw [List.map_sumBy? sums, List.map_map] at costs
    exact (congrArg Option.join costs).symm

/-- The models of the snapshot, in the order of their names. -/
theorem keys_snapshot (valid : ∀ attempt ∈ budget.models, attempt.Valid) :
    Dict.keys (budget.snapshot rounded).byModel = modelNames budget.models := by
  have counts := @counts_snapshot rounded _ _ (pricedIn_usd valid)
  have sorted := counts.normal.sorted
  have mem : ∀ model, model ∈ Dict.keys (budget.snapshot rounded).byModel ↔
      model ∈ (budget.models.map ModelAttempt.model).dedup := by
    intro model
    rw [List.mem_dedup, List.mem_map, ← not_iff_not, ← Dict.lookup_eq_none, counts.models]
    rcases listed : ofModel model budget.models with _ | ⟨attempt, others⟩
    · refine iff_of_true rfl ?_
      rintro ⟨attempt, mem, same⟩
      exact List.filter_eq_nil_iff.mp listed attempt mem (decide_eq_true same)
    · refine iff_of_false (fun none => by cases none) fun none => none ?_
      have here : attempt ∈ ofModel model budget.models := listed ▸ List.mem_cons_self
      obtain ⟨mem, same⟩ := List.mem_filter.mp here
      exact ⟨attempt, mem, of_decide_eq_true same⟩
  have perm : (Dict.keys (budget.snapshot rounded).byModel).Perm (modelNames budget.models) :=
    ((List.perm_ext_iff_of_nodup sorted.nodup (List.nodup_dedup _)).mpr mem).trans
      (List.perm_insertionSort (· ≤ ·) _).symm
  exact perm.eq_of_pairwise (fun _ _ _ _ => le_antisymm) (sorted.imp le_of_lt)
    (List.pairwise_insertionSort (· ≤ ·) _)

/-- The estimate of the snapshot is the total over its models. -/
theorem snapshot_cost (valid : ∀ attempt ∈ budget.models, attempt.Valid) :
    (budget.snapshot rounded).cost rounded = totalCost budget.models := by
  rw [Usage.cost_combineAll, totalCost, ← keys_snapshot valid, Dict.keys, List.map_map]
  exact congrArg _ (List.map_congr_left fun entry mem => (snapshot_entry valid mem).2)

/-- The contract admits the snapshot of valid requests. -/
theorem admitted_snapshot (valid : ∀ attempt ∈ budget.models, attempt.Valid)
    (retries : budget.outputRetries ≤ budget.models.length) : (budget.snapshot rounded).Admitted := by
  have counts := @counts_snapshot rounded _ _ (pricedIn_usd valid)
  have models : ∀ entry ∈ (budget.snapshot rounded).byModel, Admitted entry.2.cost := by
    intro entry mem
    rw [(snapshot_entry valid mem).2]
    exact admitted_modelCost valid entry.1
  refine ⟨?_, models, ?_, counts.sum_requests, ?_, ?_⟩
  · rw [snapshot_cost valid]
    refine admitted_combineAll fun cost mem => ?_
    obtain ⟨model, -, rfl⟩ := List.mem_map.mp mem
    exact admitted_modelCost valid model
  · intro entry mem
    obtain ⟨attempt, here⟩ := List.exists_mem_of_ne_nil _ (snapshot_entry valid mem).1
    obtain ⟨here, same⟩ := List.mem_filter.mp here
    have named := (valid attempt here).named
    rw [of_decide_eq_true same] at named
    unfold isModelId at named
    simp only [Bool.and_eq_true, decide_eq_true_eq] at named
    exact named.1
  · rw [Usage.cost_combineAll, combineAll_isSome, List.any_map]
    rfl
  · rw [budget.snapshot_counts.2, counts.modelRequests]
    exact retries

/-- The snapshot can be written exactly when the amounts at each model and over the models can. -/
theorem writable_snapshot (valid : ∀ attempt ∈ budget.models, attempt.Valid) :
    (budget.snapshot rounded).Writable ↔ (∀ total ∈ totalCost budget.models, total.Writable) ∧
      ∀ model, ∀ total ∈ modelCost budget.models model, total.Writable := by
  unfold Usage.Writable
  rw [snapshot_cost valid]
  refine and_congr Iff.rfl ?_
  constructor
  · intro models model total known
    by_cases listed : model ∈ Dict.keys (budget.snapshot rounded).byModel
    · obtain ⟨entry, mem, rfl⟩ := List.mem_map.mp listed
      exact models entry mem total ((snapshot_entry valid mem).2.trans known)
    · have counts := @counts_snapshot rounded _ _ (pricedIn_usd valid)
      have found := Dict.lookup_eq_none.mpr listed
      rw [counts.models] at found
      rcases here : ofModel model budget.models with _ | ⟨attempt, others⟩
      · rw [modelCost, here] at known
        cases known
      · rw [here] at found
        cases found
  · intro models entry mem total known
    exact models entry.1 total ((snapshot_entry valid mem).2.symm.trans known)

/-- The snapshot of a budget satisfies the public contract exactly when its amounts fit. -/
theorem snapshot_public_iff (valid : ∀ attempt ∈ budget.models, attempt.Valid)
    (retries : budget.outputRetries ≤ budget.models.length) :
    (Computes budget.models ∧
        ∃ value, usageValue (budget.snapshot rounded) = .ok value ∧ usageValid value = true) ↔
      AmountsFit budget.models := by
  constructor
  · rintro ⟨computes, value, written, -⟩
    obtain ⟨total, models⟩ := (writable_snapshot valid).mp (usageValue_succeeds.mp ⟨value, written⟩)
    exact ⟨computes, total, models⟩
  · rintro ⟨computes, total, models⟩
    obtain ⟨value, written⟩ := usageValue_succeeds.mpr ((writable_snapshot valid).mpr ⟨total, models⟩)
    exact ⟨computes, value, written, usageValid_usageValue written (admitted_snapshot valid retries)⟩

end Foliqant.Core
