import Mathlib.Algebra.Field.Rat
import Mathlib.Algebra.Order.Ring.NNRat
import Mathlib.Data.List.Sort
import Foliqant.Common.DecimalContext
import Foliqant.Common.Dict
import Foliqant.Core.Errors

/-!
# Usage and cost

Measured totals of model requests and tool calls, split by provider model. A measurement that is not
available stays unavailable in every total. Sums and prices of amounts take how an operation rounds:
`rounded` is what the decimals of the code do, and `unrounded` gives exact amounts.
-/

namespace Foliqant.Core

/-- A component of a measured total is not more than the total. -/
def Within (subset total : Option ℕ) : Prop := ∀ s ∈ subset, ∀ t ∈ total, s ≤ t

instance (subset total : Option ℕ) : Decidable (Within subset total) := by
  unfold Within
  infer_instance

/-- The sum of two measurements, when both are available. -/
def addMeasured (left right : Option ℕ) : Option ℕ := do return (← left) + (← right)

/-- A count that is not measured. -/
@[simp] theorem addMeasured_none (right : Option ℕ) : addMeasured none right = none := rfl

/-- A count that is not measured, on either side. -/
@[simp] theorem addMeasured_none_right (left : Option ℕ) : addMeasured left none = none := by
  cases left <;> rfl

/-- Measured counts add. -/
@[simp] theorem addMeasured_some (a b : ℕ) : addMeasured (some a) (some b) = some (a + b) := rfl

/-- Counts that are within others stay so in sums. -/
theorem Within.add {s s' t t' : Option ℕ} (h : Within s t) (h' : Within s' t') :
    Within (addMeasured s s') (addMeasured t t') := by
  intro a ha b hb
  rcases s with _ | s
  · cases ha
  rcases s' with _ | s'
  · cases ha
  rcases t with _ | t
  · cases hb
  rcases t' with _ | t'
  · cases hb
  cases ha
  cases hb
  exact Nat.add_le_add (h s rfl t rfl) (h' s' rfl t' rfl)

/-- Token measurements of requests; the components are parts of the totals. -/
structure TokenUsage where
  inputTokens : Option ℕ := none
  outputTokens : Option ℕ := none
  cacheReadInputTokens : Option ℕ := none
  cacheWriteInputTokens : Option ℕ := none
  reasoningOutputTokens : Option ℕ := none
  cacheRead_le : Within cacheReadInputTokens inputTokens := by decide
  cacheWrite_le : Within cacheWriteInputTokens inputTokens := by decide
  reasoning_le : Within reasoningOutputTokens outputTokens := by decide
  deriving DecidableEq

/-- Known zero, only when there was no request. -/
def TokenUsage.zero : TokenUsage where
  inputTokens := some 0
  outputTokens := some 0
  cacheReadInputTokens := some 0
  cacheWriteInputTokens := some 0
  reasoningOutputTokens := some 0

/-- The tokens of two usages. -/
def TokenUsage.plus (left right : TokenUsage) : TokenUsage where
  inputTokens := addMeasured left.inputTokens right.inputTokens
  outputTokens := addMeasured left.outputTokens right.outputTokens
  cacheReadInputTokens := addMeasured left.cacheReadInputTokens right.cacheReadInputTokens
  cacheWriteInputTokens := addMeasured left.cacheWriteInputTokens right.cacheWriteInputTokens
  reasoningOutputTokens := addMeasured left.reasoningOutputTokens right.reasoningOutputTokens
  cacheRead_le := left.cacheRead_le.add right.cacheRead_le
  cacheWrite_le := left.cacheWrite_le.add right.cacheWrite_le
  reasoning_le := left.reasoning_le.add right.reasoning_le

/-! ## Amounts -/

/-- The default context of decimals. -/
def defaultContext : Decimal.Context := { prec := 28, emin := -999999, emax := 999999 }

/-- The result of a decimal operation: 28 significant digits, a tie to the even last one. -/
def rounded (x : ℚ≥0) : ℚ≥0 := ⟨defaultContext.round x, defaultContext.round_nonneg x.2⟩

/-- Amounts as exact numbers. -/
abbrev unrounded : ℚ≥0 → ℚ≥0 := id

section Rounding

variable (round : ℚ≥0 → ℚ≥0)

/-- An estimated cost; the amount is absent when a needed count or price was unavailable. -/
structure Cost where
  currency : String
  amount : Option ℚ≥0 := none
  referenceModel : Option String := none
  deriving DecidableEq

/-- The sum of two estimates; an unpriced request makes a priced total incomplete. -/
def Cost.combine : Option Cost → Option Cost → Option Cost
  | none, none => none
  | some priced, none | none, some priced =>
      some { currency := priced.currency, referenceModel := priced.referenceModel }
  | some left, some right =>
      if left.currency ≠ right.currency then some { currency := left.currency }
      else some
        { currency := left.currency
          amount := do return round ((← left.amount) + (← right.amount))
          referenceModel :=
            if left.referenceModel = right.referenceModel then left.referenceModel else none }

/-- Requests sent to one provider model. -/
structure ModelUsage where
  requests : ℕ
  tokens : TokenUsage := {}
  cost : Option Cost := none
  requests_pos : 1 ≤ requests := by decide
  deriving DecidableEq

/-- The usage of one model in two usages. -/
def ModelUsage.plus (left right : ModelUsage) : ModelUsage where
  requests := left.requests + right.requests
  tokens := left.tokens.plus right.tokens
  cost := Cost.combine round left.cost right.cost
  requests_pos := Nat.le_add_right_of_le left.requests_pos

/-- Requests by provider model. -/
abbrev ByModel := List (String × ModelUsage)

/-- Count the usage of one more model. -/
def addModel (merged : ByModel) (model : String) (usage : ModelUsage) : ByModel :=
  Dict.set model
    (match merged.lookup model with
      | none => usage
      | some previous => previous.plus round usage) merged

/-- Merge two splits, ordered by model. -/
def mergeModels (left right : ByModel) : ByModel :=
  if right = [] then left
  else (right.foldl (fun merged entry => addModel round merged entry.1 entry.2) left).insertionSort
    fun a b => a.1 ≤ b.1

/-- Measured totals. -/
structure Usage where
  modelRequests : ℕ := 0
  toolCalls : ℕ := 0
  tokens : TokenUsage := .zero
  byModel : ByModel := []
  outputRetries : ℕ := 0
  deriving DecidableEq

/-- Two usages. -/
def Usage.plus (left right : Usage) : Usage where
  modelRequests := left.modelRequests + right.modelRequests
  toolCalls := left.toolCalls + right.toolCalls
  tokens := left.tokens.plus right.tokens
  byModel := mergeModels round left.byModel right.byModel
  outputRetries := left.outputRetries + right.outputRetries

/-- The estimate across models. -/
def Usage.cost (usage : Usage) : Option Cost :=
  match usage.byModel with
  | [] => none
  | (_, first) :: rest =>
      rest.foldl (fun total entry => Cost.combine round total entry.2.cost) first.cost

/-! ## Pricing -/

/-- Prices for a million tokens; without a cached price, cached input is billed as input. -/
structure PriceTier where
  inputPerMillion : ℚ≥0
  outputPerMillion : ℚ≥0
  cachedInputPerMillion : Option ℚ≥0 := none

/-- The price of reasoning. -/
inductive ReasoningBilling where
  | output | input
  deriving DecidableEq

/-- The prices of a model; `longContext` replaces them for requests over its threshold. -/
structure PricingPlan where
  currency : String
  base : PriceTier
  reasoningBilledAs : ReasoningBilling := .output
  longContext : Option (ℕ × PriceTier) := none
  referenceModel : Option String := none

/-- The prices for an input of this length. -/
def PricingPlan.tier (plan : PricingPlan) (inputTokens : ℕ) : PriceTier :=
  match plan.longContext with
  | some (threshold, tier) => if inputTokens > threshold then tier else plan.base
  | none => plan.base

/-- What one request costs at a million times its price; a count that the formula needs but lacks
yields none. -/
def PricingPlan.total (plan : PricingPlan) (tokens : TokenUsage) : Option ℚ≥0 := do
  let input ← tokens.inputTokens
  let output ← tokens.outputTokens
  let tier := plan.tier input
  let cached ← match tier.cachedInputPerMillion with
    | some _ => tokens.cacheReadInputTokens
    | none => some 0
  let reasoning ← match plan.reasoningBilledAs with
    | .input => tokens.reasoningOutputTokens
    | .output => some 0
  let cachedPrice := tier.cachedInputPerMillion.getD tier.inputPerMillion
  let inputPart := round (((input - cached + reasoning : ℕ) : ℚ≥0) * tier.inputPerMillion)
  let cachedPart := round (cached * cachedPrice)
  let outputPart := round (((output - reasoning : ℕ) : ℚ≥0) * tier.outputPerMillion)
  return round (round (inputPart + cachedPart) + outputPart)

/-- The amount of one request. -/
def PricingPlan.amount (plan : PricingPlan) (tokens : TokenUsage) : Option ℚ≥0 :=
  (plan.total round tokens).map fun total => round (total / 1000000)

/-- The cost of one request. -/
def PricingPlan.requestCost (plan : PricingPlan) (tokens : Option TokenUsage) : Cost where
  currency := plan.currency
  amount := tokens.bind (plan.amount round)
  referenceModel := plan.referenceModel

/-! ## The budget of a step -/

/-- One reserved model request; it may never report its usage. -/
structure ModelAttempt where
  model : String
  pricing : Option PricingPlan := none
  usage : Option TokenUsage := none

/-- What one step execution has reserved of its limits. -/
structure StepBudget where
  modelLimit : ℕ
  toolLimit : ℕ
  models : List ModelAttempt := []
  tools : ℕ := 0
  outputRetries : ℕ := 0

/-- The estimate of a request, when its model has a price. -/
def ModelAttempt.cost (attempt : ModelAttempt) : Option Cost :=
  attempt.pricing.map fun plan => plan.requestCost round attempt.usage

/-- The usage of a request by itself. -/
def ModelAttempt.single (attempt : ModelAttempt) : ModelUsage where
  requests := 1
  tokens := attempt.usage.getD {}
  cost := attempt.cost round

/-- The usage of one request. -/
def ModelAttempt.counted (attempt : ModelAttempt) : Usage where
  modelRequests := 1
  tokens := attempt.usage.getD {}
  byModel := [(attempt.model, attempt.single round)]

/-- Measured totals; unreported attempts make tokens and cost unavailable. -/
def StepBudget.snapshot (budget : StepBudget) : Usage :=
  budget.models.foldl (fun usage attempt => usage.plus round (attempt.counted round))
    { toolCalls := budget.tools, outputRetries := budget.outputRetries }

end Rounding

end Foliqant.Core
