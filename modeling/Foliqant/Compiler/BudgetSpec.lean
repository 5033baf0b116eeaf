import Foliqant.Compiler.Budgets
import Foliqant.Compiler.GraphSpec

/-!
# The budget analysis ends

More fuel never changes a bound that was found, and on an accepted graph the fuel is enough: the
recursions follow the edges of the graph, which the search has ordered.
-/

namespace Foliqant.Compiler

open Foliqant.Core

/-- A greatest cost is no less than each. -/
theorem le_foldl_max {n init : ℕ} {costs : List ℕ} (h : n ≤ init ∨ n ∈ costs) :
    n ≤ costs.foldl max init := by
  induction costs generalizing init with
  | nil => exact h.resolve_right List.not_mem_nil
  | cons cost rest ih =>
    refine ih ?_
    rcases h with h | h
    · exact .inl (h.trans (le_max_left _ _))
    · rcases List.mem_cons.mp h with rfl | h
      · exact .inl (le_max_right _ _)
      · exact .inr h

/-- The costlier of two paths. -/
theorem le_costlier (best path : ℕ × List String) :
    best.1 ≤ (costlier best path).1 ∧ path.1 ≤ (costlier best path).1 := by
  unfold costlier
  by_cases better : best.1 < path.1
  · rw [if_pos better]
    exact ⟨better.le, le_rfl⟩
  · rw [if_neg better]
    exact ⟨le_rfl, Nat.le_of_not_lt better⟩

/-- The costliest of several paths. -/
theorem le_foldl_costlier {path best : ℕ × List String} {paths : List (ℕ × List String)}
    (h : path.1 ≤ best.1 ∨ path ∈ paths) : path.1 ≤ (paths.foldl costlier best).1 := by
  induction paths generalizing best with
  | nil => exact h.resolve_right List.not_mem_nil
  | cons next rest ih =>
    refine ih ?_
    rcases h with h | h
    · exact .inl (h.trans (le_costlier best next).1)
    · rcases List.mem_cons.mp h with rfl | h
      · exact .inl (le_costlier best path).2
      · exact .inr h

/-- The longest path is no shorter than each. -/
theorem le_longest {paths : List (ℕ × List String)} {path : ℕ × List String} (h : path ∈ paths) :
    path.1 ≤ (longest paths).1 := by
  cases paths with
  | nil => cases h
  | cons first rest =>
    refine le_foldl_costlier ?_
    rcases List.mem_cons.mp h with rfl | h
    · exact .inl le_rfl
    · exact .inr h

/-! ## Bounds of parts -/

section Worst

variable {worst worst' : String → Option ℕ}

/-- A bound of several flows bounds each of them. -/
theorem costliest_spec {flows : List String} {child : ℕ} (h : costliest worst flows = some child)
    {name : String} (mem : name ∈ flows) : ∃ n, worst name = some n ∧ n ≤ child := by
  simp only [costliest, Option.bind_eq_bind, Option.bind_eq_some_iff, Option.pure_def,
    Option.some.injEq] at h
  obtain ⟨costs, all, rfl⟩ := h
  obtain ⟨n, mem, known⟩ := (List.forall₂_of_mapM all).exists_of_mem_left mem
  exact ⟨n, known, le_foldl_max (.inr mem)⟩

/-- The costliest flow, when each has a cost. -/
theorem costliest_total {flows : List String} (h : ∀ name ∈ flows, ∃ n, worst name = some n) :
    ∃ child, costliest worst flows = some child := by
  obtain ⟨costs, all⟩ := List.mapM_total h
  exact ⟨costs.foldl max 0, by simp [costliest, all]⟩

/-- The cost of steps, when each flow that they call has one. -/
theorem stepsCost_total {steps : List StepPlan}
    (h : ∀ step ∈ steps, ∀ items flows maxItems, step.kind = .flowCollection items flows maxItems →
      ∀ name ∈ flows, ∃ n, worst name = some n) : ∃ n, stepsCost worst steps = some n := by
  induction steps with
  | nil => exact ⟨0, rfl⟩
  | cons step rest ih =>
    obtain ⟨others, known⟩ := ih fun other mem => h other (List.mem_cons_of_mem _ mem)
    have first : ∃ n, stepCost worst step = some n := by
      unfold stepCost
      cases kind : step.kind with
      | flowCollection items flows maxItems =>
        obtain ⟨child, bound⟩ := costliest_total (h step List.mem_cons_self items flows maxItems kind)
        exact ⟨1 + maxItems * child, by simp [bound]⟩
      | _ => exact ⟨1, rfl⟩
    obtain ⟨n, first⟩ := first
    exact ⟨n + others, by simp [stepsCost, first, known]⟩

variable (agree : ∀ name n, worst name = some n → worst' name = some n)
include agree

/-- Costs that are known stay so. -/
theorem costliest_mono {flows : List String} {child : ℕ} (h : costliest worst flows = some child) :
    costliest worst' flows = some child := by
  simp only [costliest, Option.bind_eq_bind, Option.bind_eq_some_iff, Option.pure_def,
    Option.some.injEq] at h ⊢
  obtain ⟨costs, all, rfl⟩ := h
  exact ⟨costs, List.mapM_mono agree all, rfl⟩

/-- The cost of steps stays when more costs are known. -/
theorem stepsCost_mono {steps : List StepPlan} {n : ℕ} (h : stepsCost worst steps = some n) :
    stepsCost worst' steps = some n := by
  induction steps generalizing n with
  | nil => exact h
  | cons step rest ih =>
    simp only [stepsCost, Option.bind_eq_bind, Option.bind_eq_some_iff, Option.pure_def,
      Option.some.injEq] at h ⊢
    obtain ⟨first, known, others, rest, rfl⟩ := h
    refine ⟨first, ?_, others, ih rest, rfl⟩
    unfold stepCost at known ⊢
    cases kind : step.kind with
    | flowCollection items flows maxItems =>
      simp only [kind, Option.bind_eq_bind, Option.bind_eq_some_iff, Option.pure_def,
        Option.some.injEq] at known ⊢
      obtain ⟨child, bound, rfl⟩ := known
      exact ⟨child, costliest_mono agree bound, rfl⟩
    | _ =>
      rw [kind] at known
      exact known

/-- The cost of a retry stays when more costs are known. -/
theorem retryCost_mono {flow : FlowPlan} {n : ℕ} (h : retryCost worst flow = some n) :
    retryCost worst' flow = some n := by
  unfold retryCost at h ⊢
  cases retry : flow.repeatPlan.bind RepeatPlan.retryFlow with
  | none =>
    rw [retry] at h
    exact h
  | some name =>
    rw [retry] at h
    exact agree name n h

end Worst

/-! ## The fuel -/

section Fuel

variable {plan : WorkflowPlan}

/-- The worst case of a flow. -/
theorem worstSteps_eq_some {fuel : ℕ} {name : String} {n : ℕ} :
    worstSteps plan (fuel + 1) name = some n ↔ ∃ flow own retry, plan.flow? name = some flow ∧
      stepsCost (worstSteps plan fuel) flow.steps = some own ∧
      retryCost (worstSteps plan fuel) flow = some retry ∧
      n = attemptsCost flow.repeatPlan own retry := by
  simp only [worstSteps, Option.bind_eq_bind, Option.bind_eq_some_iff, Option.pure_def,
    Option.some.injEq]
  constructor
  · rintro ⟨flow, known, own, steps, retry, retries, rfl⟩
    exact ⟨flow, own, retry, known, steps, retries, rfl⟩
  · rintro ⟨flow, own, retry, known, steps, retries, rfl⟩
    exact ⟨flow, known, own, steps, retry, retries, rfl⟩

/-- More fuel keeps the worst case. -/
theorem worstSteps_succ {fuel : ℕ} {name : String} {n : ℕ} (h : worstSteps plan fuel name = some n) :
    worstSteps plan (fuel + 1) name = some n := by
  induction fuel generalizing name n with
  | zero => cases h
  | succ fuel ih =>
    obtain ⟨flow, own, retry, known, steps, retries, rfl⟩ := worstSteps_eq_some.mp h
    exact worstSteps_eq_some.mpr ⟨flow, own, retry, known, stepsCost_mono (fun _ _ => ih) steps,
      retryCost_mono (fun _ _ => ih) retries, rfl⟩

variable {retryOf : List (String × String)} {graph : Graph}

/-- The search visits each declared flow at most once. -/
theorem visited_length {visited : List (String × ℕ)}
    (topological : DepthFirst.Topological (successors plan retryOf) (finishFlow plan retryOf) visited)
    (declared : ∀ name ∈ Dict.keys visited, ∃ flow ∈ plan.flows, flow.name = name) :
    visited.length ≤ plan.flows.length := by
  have nodup : (Dict.keys visited).Nodup := by
    induction topological with
    | nil => exact List.nodup_nil
    | cons fresh _ _ _ ih =>
      exact List.nodup_cons.mpr ⟨fresh, ih fun name mem => declared name (List.mem_cons_of_mem _ mem)⟩
  have := (List.subperm_of_subset nodup (fun name mem => by
    obtain ⟨flow, known, rfl⟩ := declared name mem
    exact List.mem_map_of_mem known : Dict.keys visited ⊆ plan.flows.map FlowPlan.name)).length_le
  simpa [Dict.keys] using this

/-- The successors of a declared flow are declared. -/
theorem Accepts.successor_declared (h : Accepts plan retryOf graph) {flow : FlowPlan}
    (mem : flow ∈ plan.flows) {name : String} (edge : name ∈ successors plan retryOf flow.name) :
    ∃ other ∈ plan.flows, other.name = name := by
  have found : ∃ other, plan.flow? name = some other := by
    rcases (mem_successors mem).mp edge with target | calls | retries
    · obtain ⟨other, known, -⟩ := isRouted_spec (h.target_routed mem target)
      exact ⟨other, known⟩
    · obtain ⟨other, known, -⟩ := isCallable_spec (h.call_callable mem calls)
      exact ⟨other, known⟩
    · obtain ⟨-, other, known, -⟩ := h.owners.accepted _ retries
      exact ⟨other, known⟩
  obtain ⟨other, known⟩ := found
  exact ⟨other, WorkflowPlan.flow?_mem known, WorkflowPlan.flow?_name known⟩

/-- The start leads to declared flows. -/
theorem Accepts.start_declared (h : Accepts plan retryOf graph) {name : String}
    (start : name ∈ Compiler.starts plan) : ∃ flow ∈ plan.flows, flow.name = name := by
  obtain ⟨flow, known, -⟩ := isRouted_spec (h.starts name (List.mem_eraseDups.mp start))
  exact ⟨flow, WorkflowPlan.flow?_mem known, WorkflowPlan.flow?_name known⟩

/-- What a declared flow reaches is declared. -/
theorem Accepts.reaches_declared (h : Accepts plan retryOf graph) {start name : String}
    (declared : ∃ flow ∈ plan.flows, flow.name = start)
    (reaches : Digraph.Reaches (successors plan retryOf) start name) :
    ∃ flow ∈ plan.flows, flow.name = name := by
  induction reaches with
  | refl => exact declared
  | tail _ edge ih =>
    obtain ⟨flow, mem, rfl⟩ := ih
    exact h.successor_declared mem edge

/-- An order of all flows in which every successor of a flow comes later, no longer than the list of
flows. -/
theorem Accepts.order (h : Accepts plan retryOf graph) :
    ∃ visited, DepthFirst.Topological (successors plan retryOf) (finishFlow plan retryOf) visited ∧
      (∀ flow ∈ plan.flows, flow.name ∈ Dict.keys visited) ∧
      (∀ name ∈ Dict.keys visited, ∃ flow ∈ plan.flows, flow.name = name) ∧
      visited.length ≤ plan.flows.length := by
  obtain ⟨visited, topological, all, reached⟩ := h.topological
  have declared : ∀ name ∈ Dict.keys visited, ∃ flow ∈ plan.flows, flow.name = name := by
    intro name mem
    obtain ⟨start, mem, reaches⟩ := reached name mem
    exact h.reaches_declared (h.start_declared mem) reaches
  exact ⟨visited, topological, all, declared, visited_length topological declared⟩

/-- A recursion along the edges of the graph ends at every flow, when more fuel does not change what
it found. -/
theorem Accepts.ends (h : Accepts plan retryOf graph) {γ : Type} {f : ℕ → String → Option γ}
    (succ : ∀ fuel name c, f fuel name = some c → f (fuel + 1) name = some c)
    (step : ∀ fuel, ∀ flow ∈ plan.flows,
      (∀ name ∈ successors plan retryOf flow.name, ∃ c, f fuel name = some c) →
        ∃ c, f (fuel + 1) flow.name = some c)
    {flow : FlowPlan} (mem : flow ∈ plan.flows) : ∃ c, f (pathFuel plan) flow.name = some c := by
  obtain ⟨visited, topological, all, declared, short⟩ := h.order
  have found : ∀ name ∈ Dict.keys visited, ∃ c, f visited.length name = some c := by
    clear all short
    induction topological with
    | nil =>
      intro name mem
      exact absurd mem List.not_mem_nil
    | @cons node value visited fresh next finished rest ih =>
      have ih := ih fun name mem => declared name (List.mem_cons_of_mem _ mem)
      intro name mem
      rcases List.mem_cons.mp mem with rfl | mem
      · obtain ⟨flow, known, rfl⟩ := declared _ List.mem_cons_self
        exact step visited.length flow known fun name edge => ih name (next name edge)
      · obtain ⟨c, known⟩ := ih name mem
        exact ⟨c, succ _ _ _ known⟩
  obtain ⟨c, known⟩ := found _ (all flow mem)
  have more : ∀ fuel, visited.length ≤ fuel → f fuel flow.name = some c := by
    intro fuel le
    induction le with
    | refl => exact known
    | step _ ih => exact succ _ _ _ ih
  exact ⟨c, more _ (short.trans (Nat.le_succ _))⟩

/-- The worst number of steps of every flow is found. -/
theorem Accepts.worstSteps_total (h : Accepts plan retryOf graph) {flow : FlowPlan}
    (mem : flow ∈ plan.flows) : ∃ n, worstSteps plan (pathFuel plan) flow.name = some n := by
  refine h.ends (fun _ _ _ => worstSteps_succ) ?_ mem
  intro fuel flow mem below
  have steps : ∃ own, stepsCost (worstSteps plan fuel) flow.steps = some own := by
    refine stepsCost_total fun step inside items flows maxItems kind name calls => ?_
    refine below name ((mem_successors mem).mpr (.inr (.inl ?_)))
    exact List.mem_flatMap.mpr ⟨step, inside, by rw [kind]; exact calls⟩
  have retry : ∃ n, retryCost (worstSteps plan fuel) flow = some n := by
    unfold retryCost
    cases retries : flow.repeatPlan.bind RepeatPlan.retryFlow with
    | none => exact ⟨0, rfl⟩
    | some retry =>
      obtain ⟨rep, repeats, retries⟩ := Option.bind_eq_some_iff.mp retries
      exact below retry ((mem_successors mem).mpr
        (.inr (.inr (h.owners.owns flow mem rep retry repeats retries))))
  obtain ⟨own, steps⟩ := steps
  obtain ⟨retry, retries⟩ := retry
  exact ⟨_, worstSteps_eq_some.mpr
    ⟨flow, own, retry, WorkflowPlan.flow?_of_mem mem, steps, retries, rfl⟩⟩

/-! ## Paths -/

/-- The cost of a path through a flow. -/
theorem cost_eq_some {fuel : ℕ} {name : String} {c : ℕ × List String} :
    cost plan graph (fuel + 1) name = some c ↔ ∃ tails own,
      (routeSuccessors graph name).mapM (cost plan graph fuel) = some tails ∧
      worstSteps plan (pathFuel plan) name = some own ∧
      c = (own + (longest tails).1, name :: (longest tails).2) := by
  simp only [cost, Option.bind_eq_bind, Option.bind_eq_some_iff, Option.pure_def, Option.some.injEq]
  constructor
  · rintro ⟨tails, below, own, known, rfl⟩
    exact ⟨tails, own, below, known, rfl⟩
  · rintro ⟨tails, own, below, known, rfl⟩
    exact ⟨tails, below, own, known, rfl⟩

/-- More fuel keeps the cost. -/
theorem cost_succ {fuel : ℕ} {name : String} {c : ℕ × List String}
    (h : cost plan graph fuel name = some c) : cost plan graph (fuel + 1) name = some c := by
  induction fuel generalizing name c with
  | zero => cases h
  | succ fuel ih =>
    obtain ⟨tails, own, below, known, rfl⟩ := cost_eq_some.mp h
    exact cost_eq_some.mpr ⟨tails, own, List.mapM_mono (fun _ _ => ih) below, known, rfl⟩

/-- What is found under the key of a flow. -/
theorem lookup_map {α β : Type} [DecidableEq α] {as : List FlowPlan} {key : FlowPlan → α}
    {value : FlowPlan → β} (inj : (as.map key).Nodup) {a : FlowPlan} (mem : a ∈ as) :
    (as.map fun a => (key a, value a)).lookup (key a) = some (value a) := by
  refine Dict.lookup_of_mem ?_ (List.mem_map.mpr ⟨a, mem, rfl⟩)
  rwa [Dict.keys, List.map_map]

/-- Routed flows have different names. -/
theorem routedFlows_nodup (plan : WorkflowPlan) :
    ((routedFlows plan).map FlowPlan.name).Nodup :=
  plan.nodup.sublist (List.filter_sublist.map _)

/-- The flows that are routed. -/
theorem mem_routedFlows {flow : FlowPlan} :
    flow ∈ routedFlows plan ↔ flow ∈ plan.flows ∧ flow.callable = false := by
  rw [routedFlows, List.mem_filter, Bool.not_eq_true']

/-- The route successors of a routed flow are its routed targets. -/
theorem Accepts.routeSuccessors_eq (h : Accepts plan retryOf graph) {flow : FlowPlan}
    (mem : flow ∈ plan.flows) (callable : flow.callable = false) :
    routeSuccessors graph flow.name = routed flow := by
  rw [routeSuccessors, h.analysed]
  show ((List.lookup _ ((routedFlows plan).map fun flow => (flow.name, routed flow))).getD []) = _
  rw [lookup_map (routedFlows_nodup plan) (mem_routedFlows.mpr ⟨mem, callable⟩), Option.getD_some]

/-- Routes lead to routed flows. -/
theorem Accepts.routeSuccessors_subset (h : Accepts plan retryOf graph) {flow : FlowPlan}
    (mem : flow ∈ plan.flows) {name : String} (edge : name ∈ routeSuccessors graph flow.name) :
    name ∈ routed flow := by
  cases callable : flow.callable with
  | false => rwa [h.routeSuccessors_eq mem callable] at edge
  | true =>
    rw [routeSuccessors, h.analysed] at edge
    have missing : ((routedFlows plan).map fun flow => (flow.name, routed flow)).lookup flow.name =
        none := by
      rw [Dict.lookup_eq_none, Dict.keys, List.map_map]
      intro known
      obtain ⟨other, mem', same⟩ := List.mem_map.mp known
      obtain ⟨mem', routed⟩ := mem_routedFlows.mp mem'
      rw [List.inj_on_of_nodup_map plan.nodup mem' mem same, callable] at routed
      cases routed
    rw [graphOf, missing] at edge
    exact absurd edge List.not_mem_nil

/-- The most expensive path from every flow is found. -/
theorem Accepts.cost_total (h : Accepts plan retryOf graph) {flow : FlowPlan}
    (mem : flow ∈ plan.flows) : ∃ c, cost plan graph (pathFuel plan) flow.name = some c := by
  refine h.ends (fun _ _ _ => cost_succ) ?_ mem
  intro fuel flow mem below
  obtain ⟨own, known⟩ := h.worstSteps_total mem
  obtain ⟨tails, all⟩ := List.mapM_total (f := cost plan graph fuel) fun name edge =>
    below name ((mem_successors mem).mpr (.inl (h.routeSuccessors_subset mem edge)))
  exact ⟨_, cost_eq_some.mpr ⟨tails, own, all, known, rfl⟩⟩

end Fuel

end Foliqant.Compiler
