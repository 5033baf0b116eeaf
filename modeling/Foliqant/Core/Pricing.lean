import Foliqant.Common.DecimalContext
import Foliqant.Core.Usage

/-!
# Request costs in decimal arithmetic

The estimate of a request as the decimal context computes it, which rounds every result to 28
significant digits, beside the exact sum over the kinds of tokens. Elsewhere amounts are exact numbers;
here is when they are.
-/

namespace Foliqant.Core

open Decimal

/-! ## Configured prices -/

/-- The greatest price for a million tokens. -/
def MAX_PRICE : ℚ≥0 := ((1000000 : ℕ) : ℚ≥0)

/-- Prices that a configuration may have. -/
def PriceTier.Admitted (tier : PriceTier) : Prop :=
  tier.inputPerMillion ≤ MAX_PRICE ∧ tier.outputPerMillion ≤ MAX_PRICE ∧
    ∀ price ∈ tier.cachedInputPerMillion, price ≤ MAX_PRICE

/-- A letter or digit, then letters, digits and `_ . : / -`, at most 128 characters. -/
def isReferenceModel (text : String) : Bool :=
  match text.toList with
  | [] => false
  | first :: rest =>
      (isUpper first || isLower first || isDigit first) && rest.length ≤ 127 &&
        rest.all fun c => isUpper c || isLower c || isDigit c || ['_', '.', ':', '/', '-'].contains c

/-- The prices that a model profile admits. -/
structure ModelPricing where
  plan : PricingPlan
  currency : plan.currency = "USD"
  base : plan.base.Admitted
  longContext : ∀ long ∈ plan.longContext, 1 ≤ long.1 ∧ long.1 ≤ 100000000 ∧ long.2.Admitted
  referenceModel : ∀ text ∈ plan.referenceModel, isReferenceModel text = true

/-! ## The estimate -/

/-- One operation on decimals; an overflow is trapped. -/
def decimal (x : ℚ) : Arith Exn ℚ := defaultContext.settle .other x

/-- The counts that an amount is computed from. -/
structure Billed where
  tier : PriceTier
  input : ℕ
  output : ℕ
  cached : ℕ
  reasoning : ℕ

/-- The cached count is needed only by a tier with a cached price. -/
def PriceTier.cached (tier : PriceTier) (tokens : TokenUsage) : Option ℕ :=
  match tier.cachedInputPerMillion with
  | some _ => tokens.cacheReadInputTokens
  | none => some 0

/-- The reasoning count is needed only where it is billed as input. -/
def PricingPlan.reasoning (plan : PricingPlan) (tokens : TokenUsage) : Option ℕ :=
  match plan.reasoningBilledAs with
  | .input => tokens.reasoningOutputTokens
  | .output => some 0

/-- The tokens of a request as they are billed. -/
def PricingPlan.billed (plan : PricingPlan) (tokens : TokenUsage) : Option Billed := do
  let input ← tokens.inputTokens
  let output ← tokens.outputTokens
  let tier := plan.tier input
  let cached ← tier.cached tokens
  let reasoning ← plan.reasoning tokens
  return { tier := tier, input := input, output := output, cached := cached, reasoning := reasoning }

/-- The input that is billed as such. -/
def Billed.inputPart (billed : Billed) : ℚ :=
  ((billed.input - billed.cached + billed.reasoning : ℤ) : ℚ) * billed.tier.inputPerMillion

/-- The input from the cache. -/
def Billed.cachedPart (billed : Billed) : ℚ :=
  billed.cached * (billed.tier.cachedInputPerMillion.getD billed.tier.inputPerMillion : ℚ≥0)

/-- The output that is billed as such. -/
def Billed.outputPart (billed : Billed) : ℚ :=
  ((billed.output - billed.reasoning : ℤ) : ℚ) * billed.tier.outputPerMillion

/-- The amount of a request, as the decimals compute it. -/
def Billed.amount (billed : Billed) : Arith Exn ℚ := do
  let input ← decimal billed.inputPart
  let cached ← decimal billed.cachedPart
  let first ← decimal (input + cached)
  let output ← decimal billed.outputPart
  let total ← decimal (first + output)
  decimal (total / 1000000)

/-- A cost is built with a currency and an amount that is not negative. -/
def Cost.build (currency : String) (amount : Option ℚ) (referenceModel : Option String) :
    Except Exn Cost :=
  if currency = "" then fail .invalidOutput
  else
    match amount with
    | none => .ok { currency := currency, referenceModel := referenceModel }
    | some amount =>
      if negative : amount < 0 then fail .invalidOutput
      else .ok
        { currency := currency
          amount := some ⟨amount, not_lt.mp negative⟩
          referenceModel := referenceModel }

/-- Estimate one request; any count the formula needs but lacks yields no amount. -/
def PricingPlan.estimate (plan : PricingPlan) (tokens : Option TokenUsage) : Arith Exn Cost :=
  match tokens.bind plan.billed with
  | none => liftM (Cost.build plan.currency none plan.referenceModel)
  | some billed => do
    let amount ← billed.amount
    liftM (Cost.build plan.currency (some amount) plan.referenceModel)

/-- Sum two estimates. -/
def Cost.sum (left right : Cost) : Arith Exn Cost :=
  if left.currency ≠ right.currency then liftM (Cost.build left.currency none none)
  else
    let reference := if left.referenceModel = right.referenceModel then left.referenceModel else none
    match left.amount, right.amount with
    | some a, some b => do
      let amount ← decimal (a + b)
      liftM (Cost.build left.currency (some amount) reference)
    | _, _ => liftM (Cost.build left.currency none reference)

/-! ## The exact sum over the kinds of tokens -/

/-- Kinds of tokens. -/
inductive TokenKind where
  | input | cachedInput | output | reasoning
  deriving DecidableEq

/-- All kinds of tokens. -/
def TokenKind.all : List TokenKind := [.input, .cachedInput, .output, .reasoning]

/-- The price that applies to a kind of tokens in a tier. -/
def PricingPlan.price (plan : PricingPlan) (tier : PriceTier) : TokenKind → ℚ≥0
  | .input => tier.inputPerMillion
  | .cachedInput => tier.cachedInputPerMillion.getD tier.inputPerMillion
  | .output => tier.outputPerMillion
  | .reasoning =>
      match plan.reasoningBilledAs with
      | .input => tier.inputPerMillion
      | .output => tier.outputPerMillion

/-- The tokens of a kind, where cached input and reasoning are told apart only as far as they are
priced apart. -/
def Billed.count (billed : Billed) : TokenKind → ℕ
  | .input => billed.input - billed.cached
  | .cachedInput => billed.cached
  | .output => billed.output - billed.reasoning
  | .reasoning => billed.reasoning

/-- Count times price over the kinds of tokens, divided by a million. -/
def PricingPlan.exactAmount (plan : PricingPlan) (tokens : Option TokenUsage) : Option ℚ :=
  (tokens.bind plan.billed).map fun billed =>
    (TokenKind.all.map fun kind =>
      (billed.count kind * plan.price billed.tier kind : ℚ)).sum / 1000000

/-- A count is missing that the formula of the plan needs. -/
def PricingPlan.Lacks (plan : PricingPlan) (tokens : Option TokenUsage) : Prop :=
  ∀ counts ∈ tokens, counts.inputTokens = none ∨ counts.outputTokens = none ∨
    (counts.cacheReadInputTokens = none ∧ ∃ input ∈ counts.inputTokens,
      (plan.tier input).cachedInputPerMillion ≠ none) ∨
    (counts.reasoningOutputTokens = none ∧ plan.reasoningBilledAs = .input)

/-! ## When the estimate is exact -/

/-- Every result on the way has at most 28 significant digits. -/
structure Billed.Fits (billed : Billed) : Prop where
  input : defaultContext.Fits billed.inputPart
  cached : defaultContext.Fits billed.cachedPart
  first : defaultContext.Fits (billed.inputPart + billed.cachedPart)
  output : defaultContext.Fits billed.outputPart
  total : defaultContext.Fits (billed.inputPart + billed.cachedPart + billed.outputPart)
  amount : defaultContext.Fits
    ((billed.inputPart + billed.cachedPart + billed.outputPart) / 1000000)

/-- A rounding that was signalled stays so. -/
theorem sticky_decimal (x : ℚ) : Sticky (decimal x) := sticky_settle _ _ x

/-- A decimal is exact when it fits the context. -/
theorem exactly_decimal {x y : ℚ} : Exactly (decimal x) y ↔ defaultContext.Fits x ∧ y = x :=
  exactly_settle

variable {plan : PricingPlan} {tokens : TokenUsage} {billed : Billed}

/-- The amount is exact when each step of it fits. -/
theorem Billed.exactly_amount {amount : ℚ} : Exactly billed.amount amount ↔ billed.Fits ∧
    amount = (billed.inputPart + billed.cachedPart + billed.outputPart) / 1000000 := by
  have sticky := sticky_decimal
  unfold Billed.amount
  rw [exactly_bind fun _ => (sticky _).bind fun _ => (sticky _).bind fun _ =>
    (sticky _).bind fun _ => (sticky _).bind fun _ => sticky _]
  simp only [exactly_decimal, exactly_bind fun _ => (sticky _).bind fun _ => (sticky _).bind fun _ =>
    (sticky _).bind fun _ => sticky _, exactly_bind fun _ => (sticky _).bind fun _ =>
    (sticky _).bind fun _ => sticky _, exactly_bind fun _ => (sticky _).bind fun _ => sticky _,
    exactly_bind fun _ => sticky _]
  constructor
  · rintro ⟨_, ⟨input, rfl⟩, _, ⟨cached, rfl⟩, _, ⟨first, rfl⟩, _, ⟨output, rfl⟩, _, ⟨total, rfl⟩,
      whole, rfl⟩
    exact ⟨⟨input, cached, first, output, total, whole⟩, rfl⟩
  · rintro ⟨fits, rfl⟩
    exact ⟨_, ⟨fits.input, rfl⟩, _, ⟨fits.cached, rfl⟩, _, ⟨fits.first, rfl⟩, _, ⟨fits.output, rfl⟩,
      _, ⟨fits.total, rfl⟩, fits.amount, rfl⟩

/-- What is billed of a request. -/
theorem PricingPlan.billed_eq_some : plan.billed tokens = some billed ↔
    tokens.inputTokens = some billed.input ∧ tokens.outputTokens = some billed.output ∧
      plan.tier billed.input = billed.tier ∧ billed.tier.cached tokens = some billed.cached ∧
      plan.reasoning tokens = some billed.reasoning := by
  unfold PricingPlan.billed
  simp only [Option.bind_eq_bind, Option.bind_eq_some_iff, Option.pure_def, Option.some.injEq]
  constructor
  · rintro ⟨input, hinput, output, houtput, cached, hcached, reasoning, hreasoning, rfl⟩
    exact ⟨hinput, houtput, rfl, hcached, hreasoning⟩
  · rcases billed with ⟨tier, input, output, cached, reasoning⟩
    rintro ⟨hinput, houtput, htier, hcached, hreasoning⟩
    dsimp only at htier
    subst htier
    exact ⟨input, hinput, output, houtput, cached, hcached, reasoning, hreasoning, rfl⟩

/-- The amount of a plan is absent exactly when a count is missing. -/
theorem PricingPlan.billed_eq_none {tokens : Option TokenUsage} :
    tokens.bind plan.billed = none ↔ plan.Lacks tokens := by
  rcases tokens with _ | tokens
  · simp [Lacks]
  rw [Option.bind_some, Lacks]
  simp only [Option.mem_def, Option.some.injEq, forall_eq']
  unfold PricingPlan.billed PriceTier.cached PricingPlan.reasoning
  rcases tokens.inputTokens with _ | input
  · simp
  rcases tokens.outputTokens with _ | output
  · simp
  rcases hcached : (plan.tier input).cachedInputPerMillion with _ | price <;>
    rcases tokens.cacheReadInputTokens with _ | cached <;>
    rcases hbilled : plan.reasoningBilledAs with _ | _ <;>
    rcases tokens.reasoningOutputTokens with _ | reasoning <;> simp [hcached]

/-- No more comes from the cache than was put in. -/
theorem PricingPlan.cached_le (h : plan.billed tokens = some billed) :
    billed.cached ≤ billed.input := by
  obtain ⟨input, -, -, cached, -⟩ := billed_eq_some.mp h
  revert cached
  unfold PriceTier.cached
  split
  · exact fun cached => tokens.cacheRead_le _ cached _ input
  · exact fun cached => (Option.some.inj cached) ▸ Nat.zero_le _

/-- No more is reasoning than came out. -/
theorem PricingPlan.reasoning_le (h : plan.billed tokens = some billed) :
    billed.reasoning ≤ billed.output := by
  obtain ⟨-, output, -, -, reasoning⟩ := billed_eq_some.mp h
  revert reasoning
  unfold PricingPlan.reasoning
  split
  · exact fun reasoning => tokens.reasoning_le _ reasoning _ output
  · exact fun reasoning => (Option.some.inj reasoning) ▸ Nat.zero_le _

/-- The formula computes the sum over the kinds of tokens. -/
theorem PricingPlan.total_eq (h : plan.billed tokens = some billed) :
    billed.inputPart + billed.cachedPart + billed.outputPart =
      (TokenKind.all.map fun kind => (billed.count kind * plan.price billed.tier kind : ℚ)).sum := by
  have uncached : ((billed.input - billed.cached : ℕ) : ℚ) = billed.input - billed.cached :=
    Nat.cast_sub (cached_le h)
  have answer : ((billed.output - billed.reasoning : ℕ) : ℚ) = billed.output - billed.reasoning :=
    Nat.cast_sub (reasoning_le h)
  obtain ⟨-, -, -, -, reasoning⟩ := billed_eq_some.mp h
  unfold Billed.inputPart Billed.cachedPart Billed.outputPart
  simp only [TokenKind.all, List.map_cons, List.map_nil, List.sum_cons, List.sum_nil, Billed.count,
    uncached, answer, PricingPlan.price]
  push_cast
  revert reasoning
  unfold PricingPlan.reasoning
  split
  · intro _
    ring
  · intro none
    rw [← Option.some.inj none]
    ring

/-- No request costs less than nothing. -/
theorem PricingPlan.total_nonneg (h : plan.billed tokens = some billed) :
    0 ≤ (billed.inputPart + billed.cachedPart + billed.outputPart) / 1000000 := by
  rw [total_eq h]
  refine div_nonneg (List.sum_nonneg ?_) (by norm_num)
  intro part mem
  obtain ⟨kind, -, rfl⟩ := List.mem_map.mp mem
  exact mul_nonneg (Nat.cast_nonneg _) (NNRat.cast_nonneg _)

/-- The costs that are accepted. -/
theorem Cost.build_eq_ok {currency : String} {amount : Option ℚ} {reference : Option String}
    {cost : Cost} (named : currency ≠ "") : Cost.build currency amount reference = .ok cost ↔
      cost.currency = currency ∧ cost.referenceModel = reference ∧
        cost.amount.map ((↑) : ℚ≥0 → ℚ) = amount := by
  unfold Cost.build
  rw [if_neg named]
  rcases amount with _ | amount
  · rcases cost with ⟨_, _ | _, _⟩ <;> simp [eq_comm]
  · dsimp only
    split
    case isTrue negative =>
      simp only [fail, reduceCtorEq, false_iff, not_and]
      rintro - - same
      obtain ⟨exact, -, rfl⟩ := Option.map_eq_some_iff.mp same
      exact absurd (NNRat.cast_nonneg exact) (not_le.mpr negative)
    case isFalse positive =>
      rw [Except.ok.injEq]
      constructor
      · rintro rfl
        exact ⟨rfl, rfl, rfl⟩
      · rcases cost with ⟨_, _ | exact, _⟩
        · rintro ⟨-, -, same⟩
          cases same
        · rintro ⟨rfl, rfl, same⟩
          obtain rfl := Option.some.inj same
          rfl

/-- The results of one request fit the context. -/
def PricingPlan.RequestFits (plan : PricingPlan) (tokens : Option TokenUsage) : Prop :=
  ∀ billed ∈ tokens.bind plan.billed, billed.Fits

/-- An estimate is exact when its amount is. -/
theorem PricingPlan.exactly_estimate (named : plan.currency ≠ "") {tokens : Option TokenUsage}
    {cost : Cost} : Exactly (plan.estimate tokens) cost ↔
      plan.RequestFits tokens ∧ cost.currency = plan.currency ∧
        cost.referenceModel = plan.referenceModel ∧
        cost.amount.map ((↑) : ℚ≥0 → ℚ) = plan.exactAmount tokens := by
  unfold estimate RequestFits exactAmount
  rcases known : tokens.bind plan.billed with _ | billed
  · simp only [exactly_liftM, Cost.build_eq_ok named]
    simp
  · obtain ⟨counts, -, known⟩ := Option.bind_eq_some_iff.mp known
    simp only [exactly_bind fun _ => sticky_liftM _, exactly_liftM, Billed.exactly_amount,
      Cost.build_eq_ok named, Option.mem_def, Option.some.injEq, forall_eq', Option.map_some,
      ← total_eq known]
    constructor
    · rintro ⟨_, ⟨fits, rfl⟩, built⟩
      exact ⟨fits, built⟩
    · rintro ⟨fits, built⟩
      exact ⟨_, ⟨fits, rfl⟩, built⟩

/-- The exact sum of two costs in one currency. -/
theorem Cost.combine_eq_some {left right total : Cost} (same : left.currency = right.currency) :
    Cost.combine unrounded (some left) (some right) = some total ↔
      total.currency = left.currency ∧
      total.referenceModel =
        (if left.referenceModel = right.referenceModel then left.referenceModel else none) ∧
      total.amount = do return (← left.amount) + (← right.amount) := by
  rcases total with ⟨currency, amount, reference⟩
  simp only [Cost.combine, ne_eq, same, not_true_eq_false, ite_false,
      Option.some.injEq, Cost.mk.injEq,
    eq_comm (a := currency), eq_comm (a := amount), eq_comm (a := reference)]
  tauto

/-- The sum of two estimates in one currency is exact when the sum of their amounts fits. -/
theorem Cost.exactly_sum {left right total : Cost} (named : left.currency ≠ "")
    (same : left.currency = right.currency) : Exactly (left.sum right) total ↔
      (∀ a ∈ left.amount, ∀ b ∈ right.amount, defaultContext.Fits ((a : ℚ) + b)) ∧
        Cost.combine unrounded (some left) (some right) = some total := by
  rw [combine_eq_some same]
  unfold Cost.sum
  rw [if_neg fun other => other same]
  dsimp only
  rcases left with ⟨currency, _ | a, reference⟩
  · simp [exactly_liftM, Cost.build_eq_ok named]
  rcases right with ⟨_, _ | b, reference'⟩
  · simp [exactly_liftM, Cost.build_eq_ok named]
  · simp only [exactly_bind fun _ => sticky_liftM _, exactly_liftM, exactly_decimal,
      Cost.build_eq_ok named, Option.mem_def, Option.some.injEq, forall_eq']
    have cast : ∀ amount : Option ℚ≥0, amount.map ((↑) : ℚ≥0 → ℚ) = some ((a : ℚ) + b) ↔
        amount = some (a + b) := by
      intro amount
      rw [← NNRat.cast_add, ← Option.map_some, (Option.map_injective NNRat.cast_injective).eq_iff]
    constructor
    · rintro ⟨_, ⟨fits, rfl⟩, named, referred, sum⟩
      exact ⟨fits, named, referred, (cast _).mp sum⟩
    · rintro ⟨fits, named, referred, sum⟩
      exact ⟨_, ⟨fits, rfl⟩, named, referred, (cast _).mpr sum⟩

/-! ## Sums of estimates -/

/-- The exact amount of a cost as a rational number. -/
def Cost.value (cost : Cost) : Option ℚ := cost.amount.map (↑)

/-- The sum of amounts, when all of them are known. -/
def knownSum (amounts : List (Option ℚ)) : Option ℚ := (amounts.mapM id).map List.sum

/-- The known sum with one amount more. -/
theorem mem_knownSum_append {amounts : List (Option ℚ)} {amount : Option ℚ} {sum : ℚ} :
    sum ∈ knownSum (amounts ++ [amount]) ↔ ∃ a ∈ knownSum amounts, ∃ b ∈ amount, a + b = sum := by
  have split : (amounts ++ [amount]).mapM id =
      (amounts.mapM id).bind fun known => amount.map fun b => known ++ [b] := by
    rw [List.mapM_append]
    rcases amounts.mapM id with _ | known
    · rfl
    · rcases amount with _ | b <;> rfl
  unfold knownSum
  rw [split]
  rcases amounts.mapM id with _ | known <;> rcases amount with _ | b <;> simp

/-- The sum of nothing. -/
@[simp] theorem knownSum_nil : knownSum [] = some 0 := rfl

/-- The sum of one amount. -/
@[simp] theorem knownSum_singleton (amount : Option ℚ) : knownSum [amount] = amount := by
  rcases amount with _ | a
  · rfl
  · show some (a + 0) = some a
    rw [add_zero]

/-- A rounding that was signalled stays so in a sum. -/
theorem Cost.sticky_sum (left right : Cost) : Sticky (left.sum right) := by
  unfold Cost.sum
  split
  · exact sticky_liftM _
  · dsimp only
    split
    · exact (sticky_decimal _).bind fun _ => sticky_liftM _
    · exact sticky_liftM _

variable {currency : String} {rest : List Cost} {cost next : Cost} {done : List (Option ℚ)}

/-- A sum of costs is exact when it fits the context. -/
theorem Cost.value_sum (named : currency ≠ "") (here : cost.currency = currency)
    (there : next.currency = currency) (known : cost.value = knownSum done) {total : Cost} :
    Exactly (cost.sum next) total ↔
      (∀ sum ∈ knownSum (done ++ [next.value]), defaultContext.Fits sum) ∧
        Cost.combine unrounded (some cost) (some next) = some total := by
  rw [Cost.exactly_sum (here ▸ named) (here.trans there.symm)]
  apply and_congr_left
  intro _
  constructor
  · intro fits sum mem
    obtain ⟨x, hx, y, hy, rfl⟩ := mem_knownSum_append.mp mem
    rw [← known] at hx
    obtain ⟨a, ha, rfl⟩ := Option.map_eq_some_iff.mp hx
    obtain ⟨b, hb, rfl⟩ := Option.map_eq_some_iff.mp hy
    exact fits a ha b hb
  · intro fits a ha b hb
    refine fits _ (mem_knownSum_append.mpr ⟨a, ?_, b, ?_, rfl⟩)
    · rw [← known]
      exact Option.mem_map_of_mem _ ha
    · exact Option.mem_map_of_mem _ hb

/-- The exact sum of costs. -/
theorem Cost.value_combine {total : Cost} (same : cost.currency = next.currency)
    (known : cost.value = knownSum done)
    (combined : Cost.combine unrounded (some cost) (some next) = some total) :
    total.currency = cost.currency ∧ total.value = knownSum (done ++ [next.value]) := by
  obtain ⟨currency, -, amount⟩ := (combine_eq_some same).mp combined
  refine ⟨currency, ?_⟩
  apply Option.ext
  intro sum
  rw [← Option.mem_def, ← Option.mem_def, mem_knownSum_append, ← known]
  unfold Cost.value
  rw [amount]
  rcases cost.amount with _ | a <;> rcases next.amount with _ | b <;> simp

/-- The combination of estimates in one currency is exact when every partial sum fits. -/
theorem Cost.exactly_foldlM (named : currency ≠ "") (here : cost.currency = currency)
    (there : ∀ next ∈ rest, next.currency = currency) (known : cost.value = knownSum done) :
    (∃ total, Exactly (rest.foldlM Cost.sum cost) total ∧
        total.value = knownSum (done ++ rest.map Cost.value)) ↔
      ∀ before, before <+: rest.map Cost.value → before ≠ [] →
        ∀ sum ∈ knownSum (done ++ before), defaultContext.Fits sum := by
  induction rest generalizing cost done with
  | nil =>
    simp only [List.map_nil, List.prefix_nil, List.foldlM_nil, exactly_pure]
    constructor
    · rintro - before rfl nonempty
      exact absurd rfl nonempty
    · intro _
      exact ⟨cost, rfl, by rw [known, List.append_nil]⟩
  | cons next rest ih =>
    rw [List.foldlM_cons, List.map_cons]
    simp only [exactly_bind fun cost => Sticky.foldlM Cost.sticky_sum rest cost]
    have nextHere := there next List.mem_cons_self
    have restHere := fun other mem => there other (List.mem_cons_of_mem next mem)
    have sums (total : Cost) :=
      @Cost.value_sum currency cost next done named here nextHere known total
    have combines (total : Cost) :=
      @Cost.value_combine cost next done total (here.trans nextHere.symm) known
    -- the induction moves one amount from the rest to those already summed
    have regroup : done ++ next.value :: rest.map Cost.value =
        (done ++ [next.value]) ++ rest.map Cost.value := by simp
    rw [regroup]
    constructor
    · rintro ⟨total, ⟨middle, first, last⟩, value⟩ before isPrefix nonempty
      obtain ⟨fits, combined⟩ := (sums middle).mp first
      obtain ⟨currency, known⟩ := combines middle combined
      -- a prefix is the first amount alone, or it goes on into the rest
      rcases before with _ | ⟨amount, before⟩
      · exact absurd rfl nonempty
      obtain ⟨rfl, tail⟩ := List.cons_prefix_cons.mp isPrefix
      rcases before with _ | ⟨amount, before⟩
      · exact fits
      · have := (ih (currency.trans here) restHere known).mp ⟨total, last, value⟩ _ tail
          (List.cons_ne_nil _ _)
        simpa using this
    · intro fits
      have first := fits [next.value] (by simp) (List.cons_ne_nil _ _)
      obtain ⟨middle, combined⟩ :
          ∃ middle, Cost.combine unrounded (some cost) (some next) = some middle := by
        simp [Cost.combine, here, nextHere]
      obtain ⟨currency, known⟩ := combines middle combined
      obtain ⟨total, last, value⟩ := (ih (currency.trans here) restHere known).mpr
        fun before isPrefix nonempty => by
          have := fits (next.value :: before) (List.cons_prefix_cons.mpr ⟨rfl, isPrefix⟩)
            (List.cons_ne_nil _ _)
          simpa using this
      exact ⟨total, ⟨middle, (sums middle).mpr ⟨first, combined⟩, last⟩, value⟩

/-! ## Requests of priced models -/

/-- A request with the prices of its model and its token measurements. -/
structure PricedRequest where
  pricing : ModelPricing
  tokens : Option TokenUsage

/-- The estimate of a request. -/
def PricedRequest.estimate (request : PricedRequest) : Arith Exn Cost :=
  request.pricing.plan.estimate request.tokens

/-- What a request costs exactly. -/
def PricedRequest.exactAmount (request : PricedRequest) : Option ℚ :=
  request.pricing.plan.exactAmount request.tokens

/-- The estimate of a request is the exact sum over its kinds of tokens, without rounding, and has no
amount exactly when a count is missing. -/
structure PricedRequest.Estimates (request : PricedRequest) (cost : Cost) : Prop where
  exact : Exactly request.estimate cost
  value : cost.value = request.exactAmount
  nonneg : ∀ amount ∈ cost.value, 0 ≤ amount
  absent : cost.value = none ↔ request.pricing.plan.Lacks request.tokens

/-- Every request is estimated exactly, and so is the combination of the estimates. -/
def EstimatesExactly (requests : List PricedRequest) : Prop :=
  ∃ costs, List.Forall₂ PricedRequest.Estimates requests costs ∧
    ∀ first rest, costs = first :: rest → ∃ total, Exactly (rest.foldlM Cost.sum first) total ∧
      total.value = knownSum (requests.map PricedRequest.exactAmount)

/-- Every result on the way to an amount fits the context, and so does every partial sum of the exact
amounts. -/
def EstimatesFit (requests : List PricedRequest) : Prop :=
  (∀ request ∈ requests, request.pricing.plan.RequestFits request.tokens) ∧
    ∀ before, before <+: requests.map PricedRequest.exactAmount →
      ∀ sum ∈ knownSum before, defaultContext.Fits sum

variable {request : PricedRequest} {requests : List PricedRequest} {costs : List Cost}

/-- Prices have a currency. -/
theorem PricedRequest.named (request : PricedRequest) : request.pricing.plan.currency ≠ "" := by
  rw [request.pricing.currency]
  decide

/-- The estimate of a request is exact when its amount is. -/
theorem PricedRequest.exactly_estimate : Exactly request.estimate cost ↔
    request.pricing.plan.RequestFits request.tokens ∧ cost.currency = "USD" ∧
      cost.referenceModel = request.pricing.plan.referenceModel ∧
      cost.value = request.exactAmount := by
  unfold estimate
  rw [PricingPlan.exactly_estimate request.named, request.pricing.currency]
  rfl

/-- An exact estimate is one. -/
theorem PricedRequest.estimates_of_exactly (h : Exactly request.estimate cost) :
    request.Estimates cost := by
  have value := (exactly_estimate.mp h).2.2.2
  refine ⟨h, value, ?_, ?_⟩
  · intro amount mem
    obtain ⟨exact, -, rfl⟩ := Option.map_eq_some_iff.mp mem
    exact NNRat.cast_nonneg exact
  · rw [value, exactAmount, PricingPlan.exactAmount, Option.map_eq_none_iff]
    exact PricingPlan.billed_eq_none

/-- The amount of a request that fits is one of the results on the way. -/
theorem PricedRequest.fits_amount
    (fits : request.pricing.plan.RequestFits request.tokens) {amount : ℚ}
    (known : request.exactAmount = some amount) : defaultContext.Fits amount := by
  obtain ⟨billed, hbilled, rfl⟩ := Option.map_eq_some_iff.mp known
  obtain ⟨counts, -, hcounts⟩ := Option.bind_eq_some_iff.mp hbilled
  rw [← PricingPlan.total_eq hcounts]
  exact (fits billed hbilled).amount

/-- Nothing fits every context. -/
theorem defaultContext_fits_zero : defaultContext.Fits 0 :=
  ⟨⟨0, 0, by norm_num [defaultContext], by norm_num [Context.etiny, defaultContext], by norm_num⟩, by
    rw [abs_zero]
    positivity⟩

/-- Exact estimates have the exact amounts. -/
theorem map_value (estimated : List.Forall₂ PricedRequest.Estimates requests costs) :
    costs.map Cost.value = requests.map PricedRequest.exactAmount := by
  induction estimated with
  | nil => rfl
  | cons here _ ih => rw [List.map_cons, List.map_cons, here.value, ih]

/-- A request that fits has an exact estimate. -/
theorem PricedRequest.exists_estimates (fits : request.pricing.plan.RequestFits request.tokens) :
    ∃ cost, request.Estimates cost := by
  obtain ⟨amount, value⟩ : ∃ amount : Option ℚ≥0, amount.map (↑) = request.exactAmount := by
    unfold exactAmount PricingPlan.exactAmount
    rcases known : request.tokens.bind request.pricing.plan.billed with _ | billed
    · exact ⟨none, rfl⟩
    · obtain ⟨counts, -, known⟩ := Option.bind_eq_some_iff.mp known
      rw [Option.map_some, ← PricingPlan.total_eq known]
      exact ⟨some ⟨_, PricingPlan.total_nonneg known⟩, rfl⟩
  let cost : Cost :=
    { currency := "USD"
      amount := amount
      referenceModel := request.pricing.plan.referenceModel }
  exact ⟨cost, estimates_of_exactly (exactly_estimate.mpr ⟨fits, rfl, rfl, value⟩)⟩

/-- Requests that fit have exact estimates. -/
theorem PricedRequest.exists_costs
    (fits : ∀ request ∈ requests, request.pricing.plan.RequestFits request.tokens) :
    ∃ costs, List.Forall₂ PricedRequest.Estimates requests costs := by
  induction requests with
  | nil => exact ⟨[], .nil⟩
  | cons request requests ih =>
    obtain ⟨cost, here⟩ := exists_estimates (fits request List.mem_cons_self)
    obtain ⟨costs, rest⟩ := ih fun other mem => fits other (List.mem_cons_of_mem request mem)
    exact ⟨cost :: costs, .cons here rest⟩

/-- The first estimate and the sums that the others are added in. -/
theorem PricedRequest.exactly_sums (here : request.Estimates cost)
    (estimated : List.Forall₂ PricedRequest.Estimates requests rest) :
    (∃ total, Exactly (rest.foldlM Cost.sum cost) total ∧
        total.value = knownSum ((request :: requests).map PricedRequest.exactAmount)) ↔
      ∀ before, before <+: requests.map PricedRequest.exactAmount → before ≠ [] →
        ∀ sum ∈ knownSum (request.exactAmount :: before), defaultContext.Fits sum := by
  have inUsd : ∀ next ∈ rest, next.currency = "USD" := by
    intro next mem
    obtain ⟨other, -, estimates⟩ := estimated.exists_of_mem_right mem
    exact (exactly_estimate.mp estimates.exact).2.1
  have fold := Cost.exactly_foldlM (by decide) (exactly_estimate.mp here.exact).2.1 inUsd
    (knownSum_singleton cost.value).symm
  rw [map_value estimated, here.value] at fold
  exact fold

/-- The estimates of requests and their sums are exact if and only if no result on the way has more
digits than the context keeps. -/
theorem estimatesExactly_iff (requests : List PricedRequest) :
    EstimatesExactly requests ↔ EstimatesFit requests := by
  constructor
  · rintro ⟨costs, estimated, combined⟩
    have fits : ∀ request ∈ requests, request.pricing.plan.RequestFits request.tokens := by
      intro request mem
      obtain ⟨cost, -, here⟩ := estimated.exists_of_mem_left mem
      exact (PricedRequest.exactly_estimate.mp here.exact).1
    refine ⟨fits, ?_⟩
    intro before isPrefix sum mem
    rcases before with _ | ⟨amount, before⟩
    · obtain rfl := Option.some.inj mem
      exact defaultContext_fits_zero
    rcases estimated with _ | ⟨here, rest⟩
    · exact absurd isPrefix (by simp)
    obtain ⟨rfl, tail⟩ := List.cons_prefix_cons.mp isPrefix
    rcases before with _ | ⟨next, before⟩
    · rw [knownSum_singleton] at mem
      exact PricedRequest.fits_amount (fits _ List.mem_cons_self) mem
    · exact (PricedRequest.exactly_sums here rest).mp (combined _ _ rfl) _ tail
        (List.cons_ne_nil _ _) sum mem
  · rintro ⟨fits, sums⟩
    obtain ⟨costs, estimated⟩ := PricedRequest.exists_costs fits
    refine ⟨costs, estimated, ?_⟩
    rintro cost rest rfl
    rcases estimated with _ | ⟨here, rest⟩
    refine (PricedRequest.exactly_sums here rest).mpr fun before isPrefix _ => ?_
    exact sums _ (List.cons_prefix_cons.mpr ⟨rfl, isPrefix⟩)

/-- A price that is read from a number of 17 digits, beside a large one. -/
def examplePricing : ModelPricing where
  plan :=
    { currency := "USD"
      base :=
        { inputPerMillion := MAX_PRICE
          outputPerMillion := ((30000000000000004 : ℕ) : ℚ≥0) / ((10 ^ 17 : ℕ) : ℚ≥0) } }
  currency := rfl
  base := ⟨le_refl _, by decide +kernel, nofun⟩
  longContext := nofun
  referenceModel := nofun

/-- A million tokens of input, and one of output. -/
def exampleRequest : PricedRequest where
  pricing := examplePricing
  tokens := some { inputTokens := some 1000000, outputTokens := some 1 }

/-- The estimate of this request is rounded. -/
theorem exampleRequest_misses :
    (match exampleRequest.estimate.run false with
      | .ok (cost, _) => decide (cost.value ≠ exampleRequest.exactAmount)
      | .error _ => false) = true := by
  decide +kernel

/-- The total of the example has 30 digits. -/
theorem exampleRequest_rounded :
    (∃ cost inexact, exampleRequest.estimate.run false = .ok (cost, inexact) ∧
        cost.value ≠ exampleRequest.exactAmount) ∧
      ¬ EstimatesExactly [exampleRequest] := by
  have misses := exampleRequest_misses
  generalize ran : exampleRequest.estimate.run false = result at misses
  rcases result with _ | ⟨cost, inexact⟩
  · cases misses
  have differs := of_decide_eq_true misses
  refine ⟨⟨cost, inexact, rfl, differs⟩, ?_⟩
  rintro ⟨_, estimated, -⟩
  rcases estimated with _ | ⟨here, -⟩
  have same := (Prod.mk.inj (Except.ok.inj (ran.symm.trans here.exact))).1
  exact differs (same ▸ here.value)

end Foliqant.Core
