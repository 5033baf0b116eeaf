import Foliqant.Common.Fallible
import Foliqant.Compiler.Conditions
import Foliqant.Compiler.Graph
import Foliqant.Core.RunBehavior

/-!
# Authored routes

Targets, routes and starts as they are authored, and their compilation. A conditional route ends in its
only entry without a condition, so the runner always finds a target, and every target is a flow or an
outcome.
-/

namespace Foliqant.Compiler

open Foliqant.Core

/-! ## Authored forms -/

/-- The target of a boundary. -/
inductive TransitionTarget where
  | flow (name : String)
  | outcome (outcome : Disposition)

/-- One ordered entry of a route; the first entry whose condition holds is selected. -/
structure RouteEntry where
  condition : Option AuthoredCondition
  flow : Option String
  outcome : Option Disposition
  exactlyOneTarget : flow.isNone ≠ outcome.isNone

/-- A start candidate. -/
structure StartRouteEntry where
  condition : Option AuthoredCondition
  flow : String

/-- An entry of the start leads to a flow only. -/
theorem StartRouteEntry.oneTarget (entry : StartRouteEntry) :
    (some entry.flow).isNone ≠ (none : Option Disposition).isNone := Bool.false_ne_true

/-- A start candidate as an entry of a route: it has no outcome. -/
def StartRouteEntry.entry (candidate : StartRouteEntry) : RouteEntry where
  condition := candidate.condition
  flow := some candidate.flow
  outcome := none
  exactlyOneTarget := candidate.oneTarget

/-- A route has one to thirty-two entries. -/
structure ConditionalRouting where
  route : List RouteEntry
  bounded : 1 ≤ route.length ∧ route.length ≤ 32

/-- The entries of a start. -/
structure StartRouting where
  route : List StartRouteEntry
  bounded : 1 ≤ route.length ∧ route.length ≤ 32

/-- The authored cases with different keys, and an explicit default. -/
structure MatchRouting where
  binding : AuthoredBinding
  cases : List (String × TransitionTarget)
  default : TransitionTarget
  nonempty : cases ≠ []
  keys : (Dict.keys cases).Nodup

/-- Targets by issue. -/
structure UnresolvedRouting where
  default : TransitionTarget
  noSupportedAnswer : Option TransitionTarget := none
  conflictingInformation : Option TransitionTarget := none
  multipleValidOptions : Option TransitionTarget := none

/-- Where a flow leads when it has completed. -/
inductive Transition where
  | direct (target : TransitionTarget)
  | cases (route : MatchRouting)
  | route (route : ConditionalRouting)

/-- Where a flow leads when it needs review. -/
inductive ReviewRouting where
  | direct (target : TransitionTarget)
  | issues (route : UnresolvedRouting)
  | route (route : ConditionalRouting)

/-- The flow that comes first. -/
inductive Start where
  | flow (name : String)
  | route (route : StartRouting)

/-! ## Compilation -/

/-- Why a route is refused; an entry is named by its index. -/
inductive RouteError where
  | misplacedOtherwise (index : ℕ)
  | routeWithoutOtherwise (index : ℕ)
  | condition (error : ConditionError)
  | binding (error : Exn)

/-- A target. -/
def compileTarget : TransitionTarget → TransitionTargetPlan
  | .flow name => { flow := some name }
  | .outcome outcome => { outcome := some outcome }

/-- The flow of an entry, or its outcome. -/
def RouteEntry.target (entry : RouteEntry) : TransitionTargetPlan :=
  match entry.flow with
  | some name => { flow := some name }
  | none => { outcome := entry.outcome }

/-- The targets of the issues that are authored. -/
def UnresolvedRouting.targets (route : UnresolvedRouting) :
    List (DecisionIssue × TransitionTargetPlan) :=
  [(DecisionIssue.noSupportedAnswer, route.noSupportedAnswer),
    (.conflictingInformation, route.conflictingInformation),
    (.multipleValidOptions, route.multipleValidOptions)].filterMap
    fun entry => entry.2.map fun target => (entry.1, compileTarget target)

section Compile

variable (parse : String → Option Pattern) (casefold : ℕ → List ℕ)

/-- The condition of an entry. -/
def compileWhen : Option AuthoredCondition → Except RouteError (Option ConditionPlan)
  | none => .ok none
  | some condition => do
      return some (← (compileCondition parse casefold condition).mapError .condition)

/-- Compile the entries from an index on; only the last entry may, and must, have no condition. -/
def compileEntries (last : ℕ) : ℕ → List RouteEntry → Except RouteError (List RouteEntryPlan)
  | _, [] => .ok []
  | index, entry :: rest =>
      if entry.condition.isNone ∧ index ≠ last then .error (.misplacedOtherwise index)
      else if entry.condition.isSome ∧ index = last then .error (.routeWithoutOtherwise index)
      else do
        let condition ← compileWhen parse casefold entry.condition
        let others ← compileEntries last (index + 1) rest
        return { target := entry.target, condition := condition } :: others

/-- The entries of a route. -/
def compileRoute (entries : List RouteEntry) : Except RouteError ConditionalRoutingPlan := do
  return ⟨← compileEntries parse casefold (entries.length - 1) 0 entries⟩

/-- A review. -/
def compileReview : ReviewRouting → Except RouteError ReviewRoutePlan
  | .direct target => .ok (.direct (compileTarget target))
  | .issues route => .ok (.issues { default := compileTarget route.default, issues := route.targets })
  | .route route => do return .route (← compileRoute parse casefold route.route)

/-- The cases in the order of their keys. -/
def MatchRouting.sortedCases (route : MatchRouting) : List (String × TransitionTargetPlan) :=
  (route.cases.mergeSort fun first second => decide (first.1 ≤ second.1)).map
    fun entry => (entry.1, compileTarget entry.2)

/-- A transition. -/
def compileTransition : Transition → Except RouteError TransitionPlan
  | .direct target => .ok (.direct (compileTarget target))
  | .cases route => do
      let binding ← (compileBinding route.binding).mapError .binding
      return .cases
        { binding := binding, cases := route.sortedCases, default := compileTarget route.default }
  | .route route => do return .route (← compileRoute parse casefold route.route)

/-- A start. -/
def compileStart : Start → Except RouteError StartPlan
  | .flow name => .ok (.flow name)
  | .route route => do
      return .route (← compileRoute parse casefold (route.route.map StartRouteEntry.entry))

/-- The routes of a plan are compiled from authored ones. -/
structure RoutesCompiled (plan : WorkflowPlan) : Prop where
  start : ∃ authored, compileStart parse casefold authored = .ok plan.start
  transitions : ∀ flow ∈ plan.flows, flow.callable = false →
    ∃ authored transition, compileTransition parse casefold authored = .ok transition ∧
      flow.transition = some transition
  reviews : ∀ flow ∈ plan.flows, ∀ review, flow.onUnresolved = some review →
    ∃ authored, compileReview parse casefold authored = .ok review

end Compile

/-! ## What compiled routes promise -/

/-- A flow or an outcome, and not both. -/
def TransitionTargetPlan.Single (target : TransitionTargetPlan) : Prop :=
  target.flow.isNone ≠ target.outcome.isNone

/-- A compiled target is a flow or an outcome. -/
theorem compileTarget_single (target : TransitionTarget) :
    TransitionTargetPlan.Single (compileTarget target) := by
  cases target with
  | flow name => exact Bool.false_ne_true
  | outcome outcome => exact Bool.false_ne_true.symm

/-- The target of an entry is a flow or an outcome. -/
theorem RouteEntry.target_single (entry : RouteEntry) : TransitionTargetPlan.Single entry.target := by
  have one := entry.exactlyOneTarget
  unfold RouteEntry.target
  cases flow : entry.flow with
  | some name => exact Bool.false_ne_true
  | none =>
    rw [flow] at one
    exact one

section Compiled

variable {parse : String → Option Pattern} {casefold : ℕ → List ℕ}

/-- Only an entry without a condition compiles to one. -/
theorem compileWhen_none {condition : Option AuthoredCondition} {compiled : Option ConditionPlan}
    (h : compileWhen parse casefold condition = .ok compiled) :
    compiled = none ↔ condition = none := by
  cases condition with
  | none =>
    cases h
    exact ⟨fun _ => rfl, fun _ => rfl⟩
  | some condition =>
    obtain ⟨plan, -, same⟩ := Except.bind_eq_ok.mp h
    obtain rfl := Except.pure_eq_ok.mp same
    exact ⟨fun absent => absurd absent (Option.some_ne_none _),
      fun absent => absurd absent (Option.some_ne_none _)⟩

/-- Every compiled entry is the target of an authored one with its condition, and the last one has none. -/
theorem compileEntries_spec {last index : ℕ} {entries : List RouteEntry} {plans : List RouteEntryPlan}
    (h : compileEntries parse casefold last index entries = .ok plans) :
    (∀ plan ∈ plans, ∃ entry ∈ entries, plan.target = entry.target) ∧
      (index ≤ last → last < index + entries.length → ∃ plan ∈ plans, plan.condition = none) := by
  induction entries generalizing index plans with
  | nil =>
    cases h
    refine ⟨List.forall_mem_nil _, fun low high => ?_⟩
    rw [List.length_nil] at high
    omega
  | cons entry rest ih =>
    unfold compileEntries at h
    split_ifs at h with misplaced missing
    obtain ⟨condition, compiled, h⟩ := Except.bind_eq_ok.mp h
    obtain ⟨others, below, same⟩ := Except.bind_eq_ok.mp h
    obtain rfl := Except.pure_eq_ok.mp same
    obtain ⟨targets, otherwise⟩ := ih below
    refine ⟨List.forall_mem_cons.mpr ⟨⟨entry, List.mem_cons_self, rfl⟩, fun plan mem => ?_⟩,
      fun low high => ?_⟩
    · obtain ⟨authored, among, same⟩ := targets plan mem
      exact ⟨authored, List.mem_cons_of_mem _ among, same⟩
    · rcases Nat.eq_or_lt_of_le low with rfl | low
      · refine ⟨_, List.mem_cons_self, (compileWhen_none compiled).mpr ?_⟩
        cases guarded : entry.condition with
        | none => rfl
        | some _ => exact absurd ⟨by rw [guarded]; rfl, rfl⟩ missing
      · rw [List.length_cons] at high
        obtain ⟨plan, mem, open_⟩ := otherwise low (by omega)
        exact ⟨plan, List.mem_cons_of_mem _ mem, open_⟩

/-- A compiled route selects a target for every context, and its targets are authored. -/
theorem compileRoute_spec {entries : List RouteEntry} {plan : ConditionalRoutingPlan}
    (h : compileRoute parse casefold entries = .ok plan) (some_ : 1 ≤ entries.length) :
    ¬ plan.Open ∧ ∀ entry ∈ plan.entries, ∃ authored ∈ entries, entry.target = authored.target := by
  obtain ⟨plans, compiled, same⟩ := Except.bind_eq_ok.mp h
  obtain rfl := Except.pure_eq_ok.mp same
  obtain ⟨targets, otherwise⟩ := compileEntries_spec compiled
  refine ⟨fun guarded => ?_, targets⟩
  obtain ⟨plan, mem, open_⟩ := otherwise (Nat.zero_le _) (by omega)
  exact guarded plan mem open_

/-- The selected issue is one of those routed to the target; without one, the default is taken. -/
theorem select_cases (route : UnresolvedRoutingPlan) (issues : List DecisionIssue) :
    (route.select issues = (route.default, none)) ∨
      ∃ issue destination, (issue, destination) ∈ route.issues ∧
        route.select issues = (destination, some issue) := by
  unfold UnresolvedRoutingPlan.select
  dsimp only
  split
  · rename_i destination agreed
    cases found : issues.find? fun issue =>
        (Dict.ofList route.issues).lookup issue = some destination with
    | some issue =>
      have routed : (Dict.ofList route.issues).lookup issue = some destination := by
        simpa using List.find?_some found
      exact .inr ⟨issue, destination, Dict.mem_of_mem_ofList (Dict.mem_of_lookup routed), rfl⟩
    | none =>
      -- every issue takes the default, so the agreed target is the default
      left
      have known : destination ∈ issues.map fun issue =>
          ((Dict.ofList route.issues).lookup issue).getD route.default := by
        rw [← List.mem_dedup, agreed]
        exact List.mem_singleton_self _
      obtain ⟨issue, mem, taken⟩ := List.mem_map.mp known
      have unrouted := List.find?_eq_none.mp found issue mem
      cases routed : (Dict.ofList route.issues).lookup issue with
      | none =>
        rw [routed] at taken
        rw [← taken]
        rfl
      | some other =>
        rw [routed] at taken unrouted
        obtain rfl : other = destination := taken
        exact absurd (decide_eq_true rfl) unrouted
  · exact .inl rfl

/-- What a review route chooses is one of its targets. -/
theorem ReviewChosen.mem {issues : List DecisionIssue} {route : ReviewRoutePlan} {selected : Selected}
    (chosen : ReviewChosen issues (some route) selected) : selected.target ∈ reviewTargets route := by
  cases chosen with
  | direct => exact List.mem_singleton_self _
  | @issues route =>
    rcases select_cases route issues with default | ⟨issue, target, known, selected⟩
    · rw [default]
      exact List.mem_cons_self
    · rw [selected]
      exact List.mem_cons_of_mem _ (List.mem_map_of_mem known)
  | route at_ => exact List.mem_map_of_mem (List.mem_of_getElem? at_)

/-- What a transition chooses is one of its targets. -/
theorem TransitionChosen.mem {context : Json} {transition : TransitionPlan} {selected : Selected}
    (chosen : TransitionChosen context (some transition) selected) :
    selected.target ∈ routeTargets transition := by
  cases chosen with
  | direct => exact List.mem_singleton_self _
  | route at_ => exact List.mem_map_of_mem (List.mem_of_getElem? at_)
  | @cases route value _ _ chosen =>
    unfold MatchRoutingPlan.selectCase at chosen
    split at chosen
    · obtain rfl := Except.ok.inj chosen
      exact List.mem_cons_self
    · split at chosen
      · rename_i found
        obtain rfl := Except.ok.inj chosen
        exact List.mem_cons_of_mem _
          (List.mem_map.mpr ⟨_, Dict.mem_of_mem_ofList (Dict.mem_of_lookup found), rfl⟩)
      · obtain rfl := Except.ok.inj chosen
        exact List.mem_cons_self
    · cases chosen

/-- The targets of a compiled transition are flows or outcomes. -/
theorem compileTransition_single {authored : Transition} {transition : TransitionPlan}
    (h : compileTransition parse casefold authored = .ok transition) :
    ¬ TransitionMissing (some transition) ∧
      ∀ target ∈ routeTargets transition, TransitionTargetPlan.Single target := by
  cases authored with
  | direct target =>
    cases h
    exact ⟨id, List.forall_mem_singleton.mpr (compileTarget_single target)⟩
  | cases route =>
    obtain ⟨binding, -, same⟩ := Except.bind_eq_ok.mp h
    obtain rfl := Except.pure_eq_ok.mp same
    refine ⟨id, List.forall_mem_cons.mpr ⟨compileTarget_single _, fun target mem => ?_⟩⟩
    obtain ⟨entry, known, rfl⟩ := List.mem_map.mp mem
    obtain ⟨authored, -, rfl⟩ := List.mem_map.mp known
    exact compileTarget_single authored.2
  | route route =>
    obtain ⟨plan, compiled, same⟩ := Except.bind_eq_ok.mp h
    obtain rfl := Except.pure_eq_ok.mp same
    obtain ⟨selects, targets⟩ := compileRoute_spec compiled route.bounded.1
    refine ⟨selects, fun target mem => ?_⟩
    obtain ⟨entry, known, rfl⟩ := List.mem_map.mp mem
    obtain ⟨authored, -, same⟩ := targets entry known
    rw [same]
    exact authored.target_single

/-- The targets of a compiled review are flows or outcomes. -/
theorem compileReview_single {authored : ReviewRouting} {review : ReviewRoutePlan}
    (h : compileReview parse casefold authored = .ok review) :
    ¬ ReviewMissing (some review) ∧
      ∀ target ∈ reviewTargets review, TransitionTargetPlan.Single target := by
  cases authored with
  | direct target =>
    cases h
    exact ⟨id, List.forall_mem_singleton.mpr (compileTarget_single target)⟩
  | issues route =>
    cases h
    refine ⟨id, List.forall_mem_cons.mpr ⟨compileTarget_single _, fun target mem => ?_⟩⟩
    obtain ⟨entry, known, rfl⟩ := List.mem_map.mp mem
    obtain ⟨issue, -, some_⟩ := List.mem_filterMap.mp known
    obtain ⟨authored, -, rfl⟩ := Option.map_eq_some_iff.mp some_
    exact compileTarget_single authored
  | route route =>
    obtain ⟨plan, compiled, same⟩ := Except.bind_eq_ok.mp h
    obtain rfl := Except.pure_eq_ok.mp same
    obtain ⟨selects, targets⟩ := compileRoute_spec compiled route.bounded.1
    refine ⟨selects, fun target mem => ?_⟩
    obtain ⟨entry, known, rfl⟩ := List.mem_map.mp mem
    obtain ⟨authored, -, same⟩ := targets entry known
    rw [same]
    exact authored.target_single

/-- Every entry of a start route names a flow. -/
theorem compileStart_spec {authored : Start} {route : ConditionalRoutingPlan}
    (h : compileStart parse casefold authored = .ok (.route route)) :
    ¬ route.Open ∧ ∀ entry ∈ route.entries, entry.target.flow ≠ none := by
  cases authored with
  | flow name => cases h
  | route authored =>
    obtain ⟨plan, compiled, same⟩ := Except.bind_eq_ok.mp h
    obtain rfl := StartPlan.route.inj (Except.pure_eq_ok.mp same)
    obtain ⟨selects, targets⟩ := compileRoute_spec compiled
      (by rw [List.length_map]; exact authored.bounded.1)
    refine ⟨selects, fun entry mem => ?_⟩
    obtain ⟨candidate, known, same⟩ := targets entry mem
    obtain ⟨start, -, rfl⟩ := List.mem_map.mp known
    rw [same]
    exact Option.some_ne_none _

end Compiled

end Foliqant.Compiler
