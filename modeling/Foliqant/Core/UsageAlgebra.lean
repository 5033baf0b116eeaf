import Mathlib.Data.String.Basic
import Foliqant.Common.KeyedMerge
import Foliqant.Core.Usage

/-!
# Grouping of usage

Usage is summed by step, attempt, item and run. In one currency, and with the models of every part
ordered, the grouping and the order of the parts make no difference to the total.
-/

namespace Foliqant.Core

/-! ## Token counts -/

attribute [ext] TokenUsage

/-- Counts add in any order. -/
theorem addMeasured_comm (left right : Option ℕ) :
    addMeasured left right = addMeasured right left := by
  rcases left with _ | a <;> rcases right with _ | b <;> try rfl
  exact congrArg some (Nat.add_comm a b)

/-- Counts add in any grouping. -/
theorem addMeasured_assoc (first second third : Option ℕ) :
    addMeasured (addMeasured first second) third = addMeasured first (addMeasured second third) := by
  rcases first with _ | a <;> rcases second with _ | b <;> rcases third with _ | c <;> try rfl
  exact congrArg some (Nat.add_assoc a b c)

/-- Adding nothing leaves a count. -/
@[simp] theorem addMeasured_zero (count : Option ℕ) : addMeasured count (some 0) = count := by
  rcases count with _ | a <;> rfl

/-- An unknown count makes a sum unknown. -/
theorem addMeasured_eq_none {left right : Option ℕ} :
    addMeasured left right = none ↔ left = none ∨ right = none := by
  rcases left with _ | a <;> rcases right with _ | b <;> simp

/-- Token counts add in any order. -/
theorem TokenUsage.plus_comm (left right : TokenUsage) : left.plus right = right.plus left := by
  ext1 <;> exact addMeasured_comm _ _

/-- Token counts add in any grouping. -/
theorem TokenUsage.plus_assoc (first second third : TokenUsage) :
    (first.plus second).plus third = first.plus (second.plus third) := by
  ext1 <;> exact addMeasured_assoc _ _ _

/-- Adding no tokens leaves the counts. -/
@[simp] theorem TokenUsage.plus_zero (tokens : TokenUsage) : tokens.plus .zero = tokens := by
  ext1 <;> exact addMeasured_zero _

/-- Build token counts; a component of more than its total is refused. -/
def TokenUsage.build (input output cacheRead cacheWrite reasoning : Option ℕ) :
    Except Exn TokenUsage :=
  if h : Within cacheRead input ∧ Within cacheWrite input ∧ Within reasoning output then
    .ok
      { inputTokens := input
        outputTokens := output
        cacheReadInputTokens := cacheRead
        cacheWriteInputTokens := cacheWrite
        reasoningOutputTokens := reasoning
        cacheRead_le := h.1
        cacheWrite_le := h.2.1
        reasoning_le := h.2.2 }
  else fail .invalidOutput

/-- A sum of counts passes the check of its components. -/
theorem TokenUsage.build_plus (left right : TokenUsage) :
    TokenUsage.build (addMeasured left.inputTokens right.inputTokens)
      (addMeasured left.outputTokens right.outputTokens)
      (addMeasured left.cacheReadInputTokens right.cacheReadInputTokens)
      (addMeasured left.cacheWriteInputTokens right.cacheWriteInputTokens)
      (addMeasured left.reasoningOutputTokens right.reasoningOutputTokens) = .ok (left.plus right) :=
  dif_pos ⟨left.cacheRead_le.add right.cacheRead_le, left.cacheWrite_le.add right.cacheWrite_le,
    left.reasoning_le.add right.reasoning_le⟩

/-! ## Costs -/

/-- An estimate, if there is one, is in a currency. -/
def InCurrency (currency : String) (cost : Option Cost) : Prop :=
  ∀ priced ∈ cost, priced.currency = currency

/-- The amount is unknown, or nothing was priced. -/
def Unknown (cost : Option Cost) : Prop := ∀ priced ∈ cost, priced.amount = none

/-- The amount of a sum. -/
def sumAmount (round : ℚ≥0 → ℚ≥0) (left right : Option ℚ≥0) : Option ℚ≥0 := do
  return round ((← left) + (← right))

/-- Amounts add in any order, however the sum is rounded. -/
theorem sumAmount_comm (round : ℚ≥0 → ℚ≥0) (left right : Option ℚ≥0) :
    sumAmount round left right = sumAmount round right left := by
  rcases left with _ | a <;> rcases right with _ | b <;> try rfl
  exact congrArg (fun sum => some (round sum)) (add_comm a b)

/-- Exact amounts add in any grouping. -/
theorem sumAmount_assoc (first second third : Option ℚ≥0) :
    sumAmount unrounded (sumAmount unrounded first second) third =
      sumAmount unrounded first (sumAmount unrounded second third) := by
  rcases first with _ | a <;> rcases second with _ | b <;> rcases third with _ | c <;> try rfl
  exact congrArg some (add_assoc a b c)

/-- The reference that two estimates share. -/
def sharedReference (left right : Option String) :
    Option String := if left = right then left else none

/-- The shared reference does not depend on the order. -/
theorem sharedReference_comm (left right : Option String) :
    sharedReference left right = sharedReference right left := by
  unfold sharedReference
  grind

/-- The shared reference does not depend on the grouping. -/
theorem sharedReference_assoc (first second third : Option String) :
    sharedReference (sharedReference first second) third =
      sharedReference first (sharedReference second third) := by
  unfold sharedReference
  grind

variable {round : ℚ≥0 → ℚ≥0} {currency : String}

/-- Costs in one currency add member by member. -/
theorem combine_some {left right : Cost} (hleft : left.currency = currency)
    (hright : right.currency = currency) : Cost.combine round (some left) (some right) = some
      { currency := currency
        amount := sumAmount round left.amount right.amount
        referenceModel := sharedReference left.referenceModel right.referenceModel } := by
  simp [Cost.combine, hleft, hright, sumAmount, sharedReference]

/-- A part without a price leaves the amount unknown. -/
theorem combine_none_some (priced : Cost) :
    Cost.combine round none (some priced) = some { priced with amount := none } := rfl

/-- A part without a price leaves the amount unknown, on either side. -/
theorem combine_some_none (priced : Cost) :
    Cost.combine round (some priced) none = some { priced with amount := none } := rfl

/-- An unknown amount makes the sum unknown. -/
@[simp] theorem sumAmount_none (right : Option ℚ≥0) : sumAmount round none right = none := rfl

/-- An unknown amount makes the sum unknown, on either side. -/
@[simp] theorem sumAmount_none_right (left : Option ℚ≥0) : sumAmount round left none = none := by
  rcases left with _ | a <;> rfl

/-- Forgetting the amount keeps the currency. -/
theorem unpriced {cost : Cost} (h : cost.currency = currency) :
    ({ cost with amount := none } : Cost).currency = currency := h

/-- A sum of estimates in a currency is in it. -/
theorem InCurrency.combine {left right : Option Cost} (hleft : InCurrency currency left)
    (hright : InCurrency currency right) : InCurrency currency (Cost.combine round left right) := by
  rcases left with _ | a <;> rcases right with _ | b
  · nofun
  · rintro _ ⟨⟩
    exact hright b rfl
  · rintro _ ⟨⟩
    exact hleft a rfl
  · rw [combine_some (hleft a rfl) (hright b rfl)]
    rintro _ ⟨⟩
    rfl

/-- Exact costs in one currency combine in any order and grouping. -/
theorem commOn_combine (currency : String) :
    CommOn (InCurrency currency) (Cost.combine unrounded) where
  closed := InCurrency.combine
  comm {a b} ha hb := by
    rcases a with _ | a <;> rcases b with _ | b <;> try rfl
    rw [combine_some (ha a rfl) (hb b rfl), combine_some (hb b rfl) (ha a rfl), sumAmount_comm,
      sharedReference_comm]
  assoc {a b c} ha hb hc := by
    rcases a with _ | a <;> rcases b with _ | b <;> rcases c with _ | c <;> try rfl
    · rw [combine_none_some, combine_some (unpriced (hb b rfl)) (hc c rfl),
        combine_some (hb b rfl) (hc c rfl), combine_none_some, sumAmount_none]
    · rw [combine_some_none, combine_none_some, combine_some (unpriced (ha a rfl)) (hc c rfl),
        combine_some (ha a rfl) (unpriced (hc c rfl)), sumAmount_none, sumAmount_none_right]
    · rw [combine_some (ha a rfl) (hb b rfl), combine_some_none, combine_some_none,
        combine_some (ha a rfl) (unpriced (hb b rfl)), sumAmount_none_right]
    · rw [combine_some (ha a rfl) (hb b rfl), combine_some rfl (hc c rfl),
        combine_some (hb b rfl) (hc c rfl), combine_some (ha a rfl) rfl, sumAmount_assoc,
        sharedReference_assoc]

/-- An unknown amount makes a sum unknown. -/
theorem unknown_combine {left right : Option Cost} (hleft : InCurrency currency left)
    (hright : InCurrency currency right) :
    Unknown (Cost.combine round left right) ↔ Unknown left ∨ Unknown right := by
  rcases left with _ | a
  · rcases right with _ | b <;> simp [Unknown, Cost.combine]
  rcases right with _ | b
  · simp [Unknown, Cost.combine]
  · rw [combine_some (hleft a rfl) (hright b rfl)]
    simp only [Unknown, Option.mem_def, Option.some.injEq, forall_eq']
    rcases a.amount with _ | x <;> rcases b.amount with _ | y <;> simp [sumAmount]

/-! ## Models -/

attribute [ext] ModelUsage Usage

/-- The cost of the requests to a model is in a currency. -/
def ModelUsage.InCurrency (currency : String) (usage : ModelUsage) : Prop :=
  Core.InCurrency currency usage.cost

/-- A sum of usage in a currency is in it. -/
theorem ModelUsage.InCurrency.plus {left right : ModelUsage} (hleft : left.InCurrency currency)
    (hright : right.InCurrency currency) : (left.plus round right).InCurrency currency :=
  Core.InCurrency.combine hleft hright

/-- Usage of one model adds in any order and grouping when costs are exact. -/
theorem commOn_modelUsage (currency : String) :
    CommOn (ModelUsage.InCurrency currency) (ModelUsage.plus unrounded) where
  closed := ModelUsage.InCurrency.plus
  comm ha hb := by
    ext1
    · exact Nat.add_comm _ _
    · exact TokenUsage.plus_comm _ _
    · exact (commOn_combine currency).comm ha hb
  assoc ha hb hc := by
    ext1
    · exact Nat.add_assoc _ _ _
    · exact TokenUsage.plus_assoc _ _ _
    · exact (commOn_combine currency).assoc ha hb hc

/-- Adding the usage of a model is adding an entry of a dictionary. -/
theorem addModel_eq (merged : ByModel) (entry : String × ModelUsage) :
    addModel round merged entry.1 entry.2 = Dict.add (ModelUsage.plus round) merged entry := by
  unfold addModel Dict.add
  rcases merged.lookup entry.1 with _ | previous <;> rfl

/-- Merging models is merging dictionaries. -/
theorem mergeModels_eq (left right : ByModel) :
    mergeModels round left right = Dict.merge (ModelUsage.plus round) left right := by
  unfold mergeModels Dict.merge
  simp only [addModel_eq]

/-- The models are ordered, and their costs are in a currency. -/
def Usage.Normal (currency : String) (usage : Usage) : Prop :=
  Dict.Of (ModelUsage.InCurrency currency) usage.byModel

/-- A sum of ordered usage is ordered. -/
theorem Usage.Normal.plus {left right : Usage} (hleft : left.Normal currency)
    (hright : right.Normal currency) : (left.plus round right).Normal currency := by
  have merged : (left.plus round right).byModel =
      Dict.merge (ModelUsage.plus round) left.byModel right.byModel := mergeModels_eq _ _
  unfold Usage.Normal
  rw [merged]
  exact Dict.Of.merge ModelUsage.InCurrency.plus hleft hright

/-- Models merge in any order and grouping when costs are exact. -/
theorem commOn_mergeModels (currency : String) :
    CommOn (Dict.Of (ModelUsage.InCurrency currency)) (mergeModels unrounded) := by
  have same : mergeModels unrounded = Dict.merge (ModelUsage.plus unrounded) := by
    funext left right
    exact mergeModels_eq left right
  rw [same]
  exact Dict.commOn_merge (commOn_modelUsage currency)

/-- Usage adds in any order and grouping when costs are exact. -/
theorem commOn_plus (currency : String) :
    CommOn (Usage.Normal currency) (Usage.plus unrounded) where
  closed := Usage.Normal.plus
  comm ha hb := by
    ext1
    · exact Nat.add_comm _ _
    · exact Nat.add_comm _ _
    · exact TokenUsage.plus_comm _ _
    · exact (commOn_mergeModels currency).comm ha hb
    · exact Nat.add_comm _ _
  assoc ha hb hc := by
    ext1
    · exact Nat.add_assoc _ _ _
    · exact Nat.add_assoc _ _ _
    · exact TokenUsage.plus_assoc _ _ _
    · exact (commOn_mergeModels currency).assoc ha hb hc
    · exact Nat.add_assoc _ _ _

/-- No usage is in normal form. -/
theorem normal_empty (currency : String) : ({} : Usage).Normal currency :=
  ⟨List.Pairwise.nil, fun _ => nofun⟩

/-- Adding no usage leaves the usage. -/
theorem Usage.plus_empty (usage : Usage) : usage.plus round {} = usage := by
  ext1
  · exact Nat.add_zero _
  · exact Nat.add_zero _
  · exact TokenUsage.plus_zero _
  · rfl
  · exact Nat.add_zero _

/-- Usage added to none is the usage. -/
theorem Usage.empty_plus {usage : Usage} (h : usage.Normal currency) :
    ({} : Usage).plus unrounded usage = usage :=
  ((commOn_plus currency).comm (normal_empty currency) h).trans usage.plus_empty

/-! ## Single requests -/

/-- The sum of the estimates of requests. -/
def combineAll (round : ℚ≥0 → ℚ≥0) : List (Option Cost) → Option Cost
  | [] => none
  | cost :: costs => costs.foldl (Cost.combine round) cost

/-- Costs combine from left to right. -/
theorem combineAll_eq (costs : List (Option Cost)) :
    combineAll round costs = (costs.sumBy? (Cost.combine round)).join := by
  rcases costs with _ | ⟨cost, costs⟩ <;> rfl

/-- The cost of a usage is the total of its models' costs. -/
theorem Usage.cost_eq (usage : Usage) :
    usage.cost round = (Dict.total (Cost.combine round) ModelUsage.cost usage.byModel).join := by
  unfold Usage.cost Dict.total
  rcases usage.byModel with _ | ⟨entry, models⟩
  · rfl
  · exact (List.foldl_map ..).symm

/-- The cost of a model's usage is a measure when costs are exact. -/
theorem measure_cost (currency : String) : Dict.Measure (ModelUsage.InCurrency currency)
    (ModelUsage.plus unrounded) (InCurrency currency) (Cost.combine unrounded) ModelUsage.cost where
  closed := ModelUsage.InCurrency.plus
  measures := commOn_combine currency
  maps h := h
  map_op _ _ := rfl

/-- The number of requests to a model is a measure. -/
theorem measure_requests (currency : String) : Dict.Measure (ModelUsage.InCurrency currency)
    (ModelUsage.plus round) (fun _ => True) (· + ·) ModelUsage.requests where
  closed := ModelUsage.InCurrency.plus
  measures := ⟨fun _ _ => trivial, fun _ _ => Nat.add_comm _ _, fun _ _ _ => Nat.add_assoc _ _ _⟩
  maps _ := trivial
  map_op _ _ := rfl

/-- The requests to a model. -/
def ofModel (model : String) (attempts : List ModelAttempt) : List ModelAttempt :=
  attempts.filter fun attempt => attempt.model = model

/-- Totals of step budgets in any grouping, with the requests that they count; the amounts are exact. -/
inductive Summed : Usage → List ModelAttempt → Prop
  | empty : Summed {} []
  | snapshot (budget : StepBudget) : Summed (budget.snapshot unrounded) budget.models
  | plus {left right : Usage} {before after : List ModelAttempt} : Summed left before →
      Summed right after → Summed (left.plus unrounded right) (before ++ after)

/-- Usage counts requests, model by model. -/
structure Counts (round : ℚ≥0 → ℚ≥0) (currency : String) (usage : Usage)
    (attempts : List ModelAttempt) : Prop where
  normal : usage.Normal currency
  modelRequests : usage.modelRequests = attempts.length
  requests : (Dict.total (· + ·) ModelUsage.requests usage.byModel).getD 0 = attempts.length
  models (model : String) : usage.byModel.lookup model =
    ((ofModel model attempts).map (ModelAttempt.single round)).sumBy? (ModelUsage.plus round)

/-- With exact amounts the estimates of the requests add up over all models. -/
structure CountsExactly (currency : String) (usage : Usage) (attempts : List ModelAttempt) : Prop
    extends Counts unrounded currency usage attempts where
  cost : Dict.total (Cost.combine unrounded) ModelUsage.cost usage.byModel =
    (attempts.map (ModelAttempt.cost unrounded)).sumBy? (Cost.combine unrounded)

/-- The prices of the requests are in one currency. -/
def PricedIn (currency : String) (attempts : List ModelAttempt) : Prop :=
  ∀ attempt ∈ attempts, ∀ plan ∈ attempt.pricing, plan.currency = currency

variable {attempts : List ModelAttempt}

/-- Each request is priced in the currency. -/
theorem PricedIn.cost (h : PricedIn currency attempts) :
    ∀ cost ∈ attempts.map (ModelAttempt.cost round), InCurrency currency cost := by
  intro cost mem priced here
  obtain ⟨attempt, counted, rfl⟩ := List.mem_map.mp mem
  obtain ⟨plan, known, rfl⟩ := Option.map_eq_some_iff.mp here
  exact h attempt counted plan known

/-- The usage of each request is priced in the currency. -/
theorem PricedIn.single (h : PricedIn currency attempts) :
    ∀ usage ∈ attempts.map (ModelAttempt.single round), usage.InCurrency currency := by
  intro usage mem
  obtain ⟨attempt, counted, rfl⟩ := List.mem_map.mp mem
  exact h.cost _ (List.mem_map_of_mem counted)

/-- The requests to one model are priced as all are. -/
theorem PricedIn.ofModel (h : PricedIn currency attempts) (model : String) :
    PricedIn currency (ofModel model attempts) :=
  fun attempt mem => h attempt (List.mem_of_mem_filter mem)

/-- The first requests are priced as all are. -/
theorem PricedIn.left {before after : List ModelAttempt} (h : PricedIn currency (before ++ after)) :
    PricedIn currency before :=
  fun attempt mem => h attempt (List.mem_append_left after mem)

/-- The last requests are priced as all are. -/
theorem PricedIn.right {before after : List ModelAttempt} (h : PricedIn currency (before ++ after)) :
    PricedIn currency after :=
  fun attempt mem => h attempt (List.mem_append_right before mem)

/-- A usage without models counts no requests. -/
theorem counts_empty (currency : String) (usage : Usage) (models : usage.byModel = [])
    (requests : usage.modelRequests = 0) : Counts round currency usage [] := by
  refine ⟨?_, requests, ?_, fun model => ?_⟩
  · unfold Usage.Normal
    rw [models]
    exact normal_empty currency
  all_goals
    rw [models]
    rfl

/-- The usage of one request counts it. -/
theorem counts_counted {attempt : ModelAttempt} (h : PricedIn currency [attempt]) :
    Counts round currency (attempt.counted round) [attempt] := by
  refine ⟨⟨List.pairwise_singleton _ _, ?_⟩, rfl, rfl, fun model => ?_⟩
  · intro key value found
    have mem := Dict.mem_of_lookup found
    obtain ⟨-, rfl⟩ := Prod.mk.inj (List.mem_singleton.mp mem)
    exact h.cost _ (List.mem_singleton.mpr rfl)
  · unfold ModelAttempt.counted ofModel
    rw [List.lookup_cons]
    by_cases same : attempt.model = model
    · rw [same, beq_self_eq_true, List.filter_cons_of_pos (by simpa using same)]
      rfl
    · rw [beq_false_of_ne (Ne.symm same), List.filter_cons_of_neg (by simpa using same)]
      rfl

/-- A sum counts the requests of both parts, when the sums at each model are those of all its
requests. -/
theorem Counts.plus_of {left right : Usage} {before after : List ModelAttempt}
    (hleft : Counts round currency left before) (hright : Counts round currency right after)
    (append : ∀ model,
      ((ofModel model (before ++ after)).map (ModelAttempt.single round)).sumBy?
      (ModelUsage.plus round) =
        Option.merge (ModelUsage.plus round)
          (((ofModel model before).map (ModelAttempt.single round)).sumBy? (ModelUsage.plus round))
          (((ofModel model after).map (ModelAttempt.single round)).sumBy? (ModelUsage.plus round))) :
    Counts round currency (left.plus round right) (before ++ after) := by
  have models : (left.plus round right).byModel =
      Dict.merge (ModelUsage.plus round) left.byModel right.byModel := mergeModels_eq _ _
  refine ⟨hleft.normal.plus hright.normal, ?_, ?_, fun model => ?_⟩
  · rw [List.length_append, ← hleft.modelRequests, ← hright.modelRequests]
    rfl
  · have total := (@measure_requests round currency).total_merge hleft.normal hright.normal
    rw [models, total, List.length_append, ← hleft.requests, ← hright.requests]
    rcases Dict.total (· + ·) ModelUsage.requests left.byModel with _ | a <;>
      rcases Dict.total (· + ·) ModelUsage.requests right.byModel with _ | b <;> simp
  · rw [models, Dict.lookup_merge hleft.normal.sorted hright.normal.sorted,
        hleft.models, hright.models,
      append]

/-- One more request is added at its model. -/
theorem Counts.counted {usage : Usage} {attempt : ModelAttempt}
    (h : Counts round currency usage attempts) (priced : PricedIn currency [attempt]) :
    Counts round currency (usage.plus round (attempt.counted round)) (attempts ++ [attempt]) := by
  refine h.plus_of (counts_counted priced) fun model => ?_
  unfold ofModel
  rw [List.filter_append]
  by_cases same : attempt.model = model
  · have one : [attempt].filter (fun attempt => attempt.model = model) = [attempt] :=
      List.filter_cons_of_pos (by simpa using same)
    rw [one, List.map_append, List.map_singleton, List.sumBy?_concat]
    rfl
  · have none : [attempt].filter (fun attempt => attempt.model = model) = [] :=
      List.filter_cons_of_neg (by simpa using same)
    rw [none, List.append_nil]
    exact Option.merge_none_right.symm

/-- What holds of the empty usage of a budget and is kept by one more request holds of its snapshot. -/
theorem StepBudget.snapshot_induction {P : Usage → List ModelAttempt → Prop} (budget : StepBudget)
    (start : P { toolCalls := budget.tools, outputRetries := budget.outputRetries } [])
    (step : ∀ usage done attempt, attempt ∈ budget.models → P usage done →
      P (usage.plus round (attempt.counted round)) (done ++ [attempt])) :
    P (budget.snapshot round) budget.models := by
  have fold : ∀ (rest done : List ModelAttempt) (usage : Usage),
      (∀ attempt ∈ rest, attempt ∈ budget.models) →
      P usage done →
      P (rest.foldl (fun usage attempt => usage.plus round (attempt.counted round)) usage)
        (done ++ rest) := by
    intro rest
    induction rest with
    | nil =>
      intro done usage _ holds
      rwa [List.append_nil]
    | cons attempt rest ih =>
      intro done usage mem holds
      rw [List.forall_mem_cons] at mem
      have next := ih (done ++ [attempt]) _ mem.2 (step usage done attempt mem.1 holds)
      rwa [List.append_assoc] at next
  exact fold budget.models [] _ (fun _ mem => mem) start

/-- The snapshot of a budget counts the requests that were charged to it. -/
theorem counts_snapshot {budget : StepBudget} (h : PricedIn currency budget.models) :
    Counts round currency (budget.snapshot round) budget.models :=
  budget.snapshot_induction (counts_empty currency _ rfl rfl) fun _ _ _ mem counts =>
    counts.counted fun other same => h other (List.mem_singleton.mp same ▸ mem)

/-! ## Exact amounts -/

/-- When costs are exact, two usages count together what they count apart. -/
theorem Counts.plus {left right : Usage} {before after : List ModelAttempt}
    (hleft : Counts unrounded currency left before) (hright : Counts unrounded currency right after)
    (h : PricedIn currency (before ++ after)) :
    Counts unrounded currency (left.plus unrounded right) (before ++ after) := by
  refine hleft.plus_of hright fun model => ?_
  have singles := @PricedIn.single unrounded _ _ (h.ofModel model)
  unfold ofModel at singles ⊢
  rw [List.filter_append, List.map_append, List.forall_mem_append] at singles
  rw [List.filter_append, List.map_append,
    (commOn_modelUsage currency).sumBy?_append singles.1 singles.2]

/-- Two usages count together exactly what they count apart. -/
theorem CountsExactly.plus {left right : Usage} {before after : List ModelAttempt}
    (hleft : CountsExactly currency left before) (hright : CountsExactly currency right after)
    (h : PricedIn currency (before ++ after)) :
    CountsExactly currency (left.plus unrounded right) (before ++ after) := by
  refine ⟨hleft.toCounts.plus hright.toCounts h, ?_⟩
  have models : (left.plus unrounded right).byModel =
      Dict.merge (ModelUsage.plus unrounded) left.byModel right.byModel := mergeModels_eq _ _
  have costs := @PricedIn.cost unrounded _ _ h
  rw [List.map_append, List.forall_mem_append] at costs
  rw [models, (measure_cost currency).total_merge hleft.normal hright.normal, hleft.cost, hright.cost,
    List.map_append, (commOn_combine currency).sumBy?_append costs.1 costs.2]

/-- The exact snapshot of a budget counts its requests exactly. -/
theorem countsExactly_snapshot {budget : StepBudget} (h : PricedIn currency budget.models) :
    CountsExactly currency (budget.snapshot unrounded) budget.models := by
  have both := @StepBudget.snapshot_induction unrounded
    (fun usage done => PricedIn currency done ∧ CountsExactly currency usage done) budget
    ⟨fun _ mem => absurd mem List.not_mem_nil, counts_empty currency _ rfl rfl, rfl⟩ (by
    intro usage done attempt mem ⟨priced, counts⟩
    have last : PricedIn currency [attempt] :=
      fun other same => h other (List.mem_singleton.mp same ▸ mem)
    have all : PricedIn currency (done ++ [attempt]) := fun other mem =>
      (List.mem_append.mp mem).elim (priced other) (last other)
    exact ⟨all, counts.plus ⟨counts_counted last, rfl⟩ all⟩)
  exact both.2

/-- Whatever the order and grouping of a sum, it counts its requests exactly. -/
theorem Summed.counts {usage : Usage} (h : Summed usage attempts)
    (priced : PricedIn currency attempts) :
    CountsExactly currency usage attempts := by
  induction h with
  | empty => exact ⟨counts_empty currency _ rfl rfl, rfl⟩
  | snapshot budget => exact countsExactly_snapshot priced
  | plus _ _ ihleft ihright => exact (ihleft priced.left).plus (ihright priced.right) priced

/-- The requests at the models add up to all requests. -/
theorem Counts.sum_requests {usage : Usage} (h : Counts round currency usage attempts) :
    (usage.byModel.map fun entry => entry.2.requests).sum = usage.modelRequests := by
  rw [h.modelRequests, ← h.requests, Dict.total]
  rcases usage.byModel with _ | ⟨entry, models⟩
  · rfl
  · show _ = (models.map fun entry => entry.2.requests).foldl (· + ·) entry.2.requests
    rw [List.map_cons, List.sum_cons, List.sum_eq_foldl]
    exact (@List.foldl_assoc ℕ (· + ·) _ _ _ 0).symm

/-- The total of step budgets has every request at its model, and the combination of their estimates in
any order as its cost. -/
theorem Summed.totals {usage : Usage} (h : Summed usage attempts)
    (priced : PricedIn currency attempts) :
    (usage.byModel.map fun entry => entry.2.requests).sum = usage.modelRequests ∧
      ∀ order : List ModelAttempt, order.Perm attempts →
        usage.cost unrounded = combineAll unrounded (order.map (ModelAttempt.cost unrounded)) := by
  have counts := h.counts priced
  refine ⟨counts.sum_requests, fun order perm => ?_⟩
  rw [Usage.cost_eq, counts.cost, combineAll_eq]
  exact congrArg Option.join ((commOn_combine currency).sumBy?_perm (perm.symm.map _) priced.cost)

/-- With exact amounts grouping and order make no difference: the sum of usage in one currency is closed,
commutative and associative with the empty usage as its identity, what is unknown stays unknown, no sum
violates the check of its components, and the total of step budgets adds up to their single requests. -/
theorem usage_grouping (currency : String) :
    CommOn (Usage.Normal currency) (Usage.plus unrounded) ∧
      (({} : Usage).Normal currency ∧
        ∀ usage : Usage, usage.Normal currency →
          usage.plus unrounded {} = usage ∧ ({} : Usage).plus unrounded usage = usage) ∧
      (∀ left right : Option ℕ, addMeasured left right = none ↔ left = none ∨ right = none) ∧
      (∀ left right : Option Cost, InCurrency currency left → InCurrency currency right →
        (Unknown (Cost.combine unrounded left right) ↔ Unknown left ∨ Unknown right)) ∧
      (∀ left right : TokenUsage,
        TokenUsage.build (addMeasured left.inputTokens right.inputTokens)
          (addMeasured left.outputTokens right.outputTokens)
          (addMeasured left.cacheReadInputTokens right.cacheReadInputTokens)
          (addMeasured left.cacheWriteInputTokens right.cacheWriteInputTokens)
          (addMeasured left.reasoningOutputTokens right.reasoningOutputTokens) =
            .ok (left.plus right)) ∧
      ∀ (usage : Usage) (attempts : List ModelAttempt), Summed usage attempts →
        PricedIn currency attempts →
        (usage.byModel.map fun entry => entry.2.requests).sum = usage.modelRequests ∧
          ∀ order : List ModelAttempt, order.Perm attempts →
            usage.cost unrounded =
              combineAll unrounded (order.map (ModelAttempt.cost unrounded)) :=
  ⟨commOn_plus currency,
    ⟨normal_empty currency, fun usage h => ⟨usage.plus_empty, usage.empty_plus h⟩⟩,
    fun _ _ => addMeasured_eq_none, fun _ _ => unknown_combine, TokenUsage.build_plus,
    fun _ _ h priced => h.totals priced⟩

end Foliqant.Core
