import Mathlib.Data.List.ReduceOption
import Foliqant.Compiler.RoutedRuns

/-!
# What an accepted graph promises of runs

The dominators and the ancestors that the graph analysis finds are those of the route paths, and a run
of the workflow walks one route path. So whatever the analysis finds available has finished, whatever it
excludes has not run, no flow is entered twice, and the budget of the most expensive path is enough.
-/

namespace Foliqant.Compiler

open Foliqant.Core Exec
open Emission (after)

/-! ## Route paths -/

/-- A path of routes from a start candidate to a flow, the flow itself first. -/
inductive RoutePath (plan : WorkflowPlan) : List String → String → Prop
  | start {name : String} (candidate : name ∈ startPaths plan) : RoutePath plan [name] name
  | step {path : List String} {flow : FlowPlan} {name : String}
        (before : RoutePath plan path flow.name)
      (mem : flow ∈ plan.flows) (edge : name ∈ routed flow) : RoutePath plan (name :: path) name

section Paths

variable {plan : WorkflowPlan} {retryOf : List (String × String)} {graph : Graph}

/-- A path ends in its flow. -/
theorem RoutePath.cons {path : List String} {name : String} (h : RoutePath plan path name) :
    ∃ behind, path = name :: behind := by
  cases h with
  | start => exact ⟨[], rfl⟩
  | step => exact ⟨_, rfl⟩

/-- Every flow of a path is declared and routed. -/
theorem RoutePath.routed {path : List String} {name : String} (h : RoutePath plan path name)
    (accepted : Accepts plan retryOf graph) : ∀ f ∈ path, isRouted plan f = true := by
  induction h with
  | start candidate => exact List.forall_mem_singleton.mpr (accepted.starts _ candidate)
  | step _ mem edge ih => exact List.forall_mem_cons.mpr ⟨accepted.target_routed mem edge, ih⟩

/-- The flows before the last one of a path lead to it. -/
theorem RoutePath.leads {path : List String} {name : String} (h : RoutePath plan path name) :
    ∀ f ∈ path, f = name ∨ Relation.TransGen
    (fun first next => next ∈ successors plan retryOf first) f name := by
  induction h with
  | start => exact List.forall_mem_singleton.mpr (.inl rfl)
  | step _ mem edge ih =>
    have along := (@mem_successors plan retryOf _ mem _).mpr (.inl edge)
    refine List.forall_mem_cons.mpr ⟨.inl rfl, fun f inside => .inr ?_⟩
    rcases ih f inside with rfl | leads
    · exact .single along
    · exact leads.tail along

/-- No flow is on a path twice. -/
theorem RoutePath.nodup {path : List String} {name : String} (h : RoutePath plan path name)
    (accepted : Accepts plan retryOf graph) : path.Nodup := by
  induction h with
  | start => exact List.nodup_singleton _
  | @step path flow name before mem edge ih =>
    refine List.nodup_cons.mpr ⟨fun again => ?_, ih⟩
    have along := (@mem_successors plan retryOf _ mem _).mpr (.inl edge)
    obtain ⟨next, known, -⟩ := isRouted_spec (accepted.target_routed mem edge)
    obtain rfl := WorkflowPlan.flow?_name known
    refine accepted.acyclic (WorkflowPlan.flow?_mem known) ?_
    rcases before.leads next.name again with same | leads
    · rw [same] at along ⊢
      exact .single along
    · exact leads.tail along

/-! ## Predecessors -/

/-- The start leads to the flows of its routes. -/
theorem root_mem_predecessors {name : String} :
    none ∈ predecessors plan name ↔ name ∈ startPaths plan := by
  unfold predecessors starts
  rw [List.mem_append]
  constructor
  · rintro (before | root)
    · obtain ⟨flow, -, same⟩ := List.mem_map.mp before
      cases same
    · split at root
      case isTrue candidate => exact List.mem_eraseDups.mp candidate
      case isFalse => cases root
  · intro candidate
    rw [if_pos (List.mem_eraseDups.mpr candidate)]
    exact .inr (List.mem_singleton_self _)

/-- The flows that lead to a flow. -/
theorem mem_predecessors {f name : String} :
    some f ∈ predecessors plan name ↔ ∃ flow ∈ plan.flows, name ∈ routed flow ∧ flow.name = f := by
  unfold predecessors
  rw [List.mem_append]
  constructor
  · rintro (before | root)
    · obtain ⟨flow, mem, same⟩ := List.mem_map.mp before
      obtain ⟨mem, edge⟩ := List.mem_filter.mp mem
      exact ⟨flow, mem, of_decide_eq_true edge, Option.some.inj same⟩
    · split at root
      · cases List.mem_singleton.mp root
      · cases root
  · rintro ⟨flow, mem, edge, rfl⟩
    exact .inl (List.mem_map.mpr ⟨flow, List.mem_filter.mpr ⟨mem, decide_eq_true edge⟩, rfl⟩)

/-- Paths of routes are the paths of the graph. -/
theorem routePath_iff {path : List String} {name : String} :
    RoutePath plan path name ↔ Dominators.Path (predecessors plan) path name := by
  constructor
  · intro h
    induction h with
    | start candidate => exact .start (root_mem_predecessors.mpr candidate)
    | step _ mem edge ih => exact .step ih (mem_predecessors.mpr ⟨_, mem, edge, rfl⟩)
  · intro h
    induction h with
    | start edge => exact .start (root_mem_predecessors.mp edge)
    | step _ before ih =>
      obtain ⟨flow, mem, edge, rfl⟩ := mem_predecessors.mp before
      exact .step ih mem edge

/-- A callable flow routes nowhere. -/
theorem routed_single {flow : FlowPlan} {name : String} (edge : name ∈ routed flow) :
    flow.callable = false := by
  cases callable : flow.callable with
  | false => rfl
  | true =>
    obtain ⟨transition, review⟩ := flow.called callable
    obtain ⟨target, mem, -⟩ := mem_routed.mp edge
    unfold flowTargets flowTransitions flowReviews at mem
    rw [transition, review] at mem
    exact absurd mem List.not_mem_nil

/-- The names of routed flows. -/
theorem mem_routedNames {name : String} :
    name ∈ (routedFlows plan).map FlowPlan.name ↔ isRouted plan name = true := by
  constructor
  · intro named
    obtain ⟨flow, among, rfl⟩ := List.mem_map.mp named
    obtain ⟨mem, single⟩ := mem_routedFlows.mp among
    simp [isRouted, WorkflowPlan.flow?_of_mem mem, single]
  · intro routed_
    obtain ⟨flow, known, single⟩ := isRouted_spec routed_
    obtain rfl := WorkflowPlan.flow?_name known
    exact List.mem_map_of_mem (mem_routedFlows.mpr ⟨WorkflowPlan.flow?_mem known, single⟩)

/-- Routed flows are led to by routed flows. -/
theorem predecessors_closed : ∀ node ∈ (routedFlows plan).map FlowPlan.name, ∀ parent,
    some parent ∈ predecessors plan node → parent ∈ (routedFlows plan).map FlowPlan.name := by
  intro node _ parent before
  obtain ⟨flow, mem, edge, rfl⟩ := mem_predecessors.mp before
  exact List.mem_map_of_mem (mem_routedFlows.mpr ⟨mem, routed_single edge⟩)

/-- Every routed flow of an accepted graph is on a route path. -/
theorem Accepts.routePath (h : Accepts plan retryOf graph) {name : String}
    (routed_ : isRouted plan name = true) : ∃ path, RoutePath plan path name := by
  obtain ⟨visited, topological, all, reached⟩ := h.topological
  obtain ⟨flow, known, single⟩ := isRouted_spec routed_
  obtain rfl := WorkflowPlan.flow?_name known
  obtain ⟨start, candidate, reaches⟩ := reached _ (all flow (WorkflowPlan.flow?_mem known))
  have candidate := List.mem_eraseDups.mp candidate
  -- Only routes lead to a routed flow: collections and repeats call callable flows.
  have path : ∀ name, Digraph.Reaches (successors plan retryOf) start name →
      isRouted plan name = true →
      ∃ path, RoutePath plan path name := by
    intro name reaches
    induction reaches with
    | refl => exact fun _ => ⟨_, .start candidate⟩
    | @tail before name reaches edge ih =>
      intro single
      obtain ⟨next, known, single⟩ := isRouted_spec single
      obtain ⟨flow, mem, rfl⟩ :=
        h.reaches_declared (h.start_declared (List.mem_eraseDups.mpr candidate)) reaches
      have callable (called : isCallable plan name = true) : False := by
        obtain ⟨other, known', callable⟩ := isCallable_spec called
        rw [known] at known'
        rw [← Option.some.inj known', single] at callable
        cases callable
      rcases (mem_successors mem).mp edge with target | calls | retries
      · have routed_ : isRouted plan flow.name = true :=
          mem_routedNames.mp (List.mem_map_of_mem (mem_routedFlows.mpr ⟨mem, routed_single target⟩))
        obtain ⟨path, before⟩ := ih routed_
        exact ⟨_, before.step mem target⟩
      · exact absurd (h.call_callable mem calls) callable
      · obtain ⟨-, other, known', called, -⟩ := h.owners.accepted _ retries
        exact absurd (by simp [isCallable, known', called]) callable
  exact path flow.name reaches (mem_routedNames.mp (List.mem_map_of_mem
    (mem_routedFlows.mpr ⟨WorkflowPlan.flow?_mem known, single⟩)))

/-- Every routed flow of an accepted plan is led to. -/
theorem Accepts.entered (h : Accepts plan retryOf graph) :
    ∀ node ∈ (routedFlows plan).map FlowPlan.name, predecessors plan node ≠ [] := by
  intro node mem
  obtain ⟨path, path_⟩ := h.routePath (mem_routedNames.mp mem)
  cases routePath_iff.mp path_ with
  | start edge => exact List.ne_nil_of_mem edge
  | step _ edge => exact List.ne_nil_of_mem edge

/-! ## The analysis -/

/-- The flows available at a routed flow are those on every route path to it. -/
theorem Accepts.mem_availableFlows (h : Accepts plan retryOf graph) {f name : String}
    (single : isRouted plan name = true) : f ∈ graph.availableFlows plan name ↔
      f ≠ name ∧ ∀ path, RoutePath plan path name → f ∈ path := by
  have node := mem_routedNames.mpr single
  unfold Graph.availableFlows
  rw [h.analysed, List.mem_filter, decide_eq_true_iff]
  constructor
  · rintro ⟨-, dominates, ne⟩
    refine ⟨ne, fun path path_ => ?_⟩
    exact Dominators.solve_sound predecessors_closed h.entered node dominates (routePath_iff.mp path_)
  · rintro ⟨ne, every⟩
    obtain ⟨path, path_⟩ := h.routePath single
    have inside := path_.routed h f (every path path_)
    obtain ⟨flow, known, -⟩ := isRouted_spec inside
    refine ⟨?_, ?_, ne⟩
    · rw [← WorkflowPlan.flow?_name known]
      exact List.mem_map_of_mem (WorkflowPlan.flow?_mem known)
    · refine (Dominators.mem_solve predecessors_closed h.entered node
        (mem_routedNames.mpr inside)).mpr ?_
      exact fun path path_ => every path (routePath_iff.mpr path_)

/-- The routed predecessors of a flow. -/
theorem mem_reduceOption {f name : String} :
    f ∈ (predecessors plan name).reduceOption ↔ ∃ flow ∈ plan.flows, name ∈ routed flow ∧
    flow.name = f := by
  rw [List.reduceOption_mem_iff, mem_predecessors]

/-- A path to a flow can be extended along the predecessors of another one. -/
theorem RoutePath.extend {path : List String} {f name : String} (h : RoutePath plan path f)
    (reaches : Digraph.Reaches (fun name => (predecessors plan name).reduceOption) name f) :
    ∃ path', RoutePath plan path' name ∧ ∀ other ∈ path, other ∈ path' := by
  induction reaches using Relation.ReflTransGen.head_induction_on with
  | refl => exact ⟨path, h, fun _ => id⟩
  | head before _ ih =>
    obtain ⟨path', further, inside⟩ := ih
    obtain ⟨flow, mem, edge, rfl⟩ := mem_reduceOption.mp before
    exact ⟨_, further.step mem edge, fun other mem => List.mem_cons_of_mem _ (inside other mem)⟩

/-- A path before a flow runs along its predecessors. -/
theorem RoutePath.reaches {path : List String} {name : String} (h : RoutePath plan path name) :
    ∀ f ∈ path, Digraph.Reaches (fun name => (predecessors plan name).reduceOption) name f := by
  induction h with
  | start => exact List.forall_mem_singleton.mpr .refl
  | step _ mem edge ih =>
    refine List.forall_mem_cons.mpr ⟨.refl, fun f inside => ?_⟩
    exact .head (mem_reduceOption.mpr ⟨_, mem, edge, rfl⟩) (ih f inside)

/-- The ancestors of a routed flow, with the flow itself, are the flows on the route paths to it. -/
theorem Accepts.mem_ancestors (h : Accepts plan retryOf graph) {f name : String}
    (routed_ : isRouted plan name = true) :
    f ∈ (graph.ancestors.lookup name).getD [] ++ [name] ↔ ∃ path,
    RoutePath plan path name ∧ f ∈ path := by
  obtain ⟨flow, known, single⟩ := isRouted_spec routed_
  obtain rfl := WorkflowPlan.flow?_name known
  have mem := WorkflowPlan.flow?_mem known
  have found : graph.ancestors.lookup flow.name = some (flowAncestors plan flow.name) := by
    rw [h.analysed]
    exact lookup_map (routedFlows_nodup plan) (mem_routedFlows.mpr ⟨mem, single⟩)
  have closed : ∀ node ∈ (routedFlows plan).map FlowPlan.name,
      ∀ other ∈ (predecessors plan node).reduceOption, other ∈ (routedFlows plan).map FlowPlan.name :=
    fun node inside other before =>
      predecessors_closed node inside other (List.reduceOption_mem_iff.mp before)
  have node : flow.name ∈ (routedFlows plan).map FlowPlan.name :=
    List.mem_map_of_mem (mem_routedFlows.mpr ⟨mem, single⟩)
  rw [found, Option.getD_some, List.mem_append, List.mem_singleton, flowAncestors,
    Digraph.mem_reachable closed (closed _ node)]
  constructor
  · rintro (⟨before, edge, reaches⟩ | rfl)
    · have inside : isRouted plan f = true := by
        refine mem_routedNames.mp ?_
        have start := closed _ node before edge
        clear edge
        induction reaches with
        | refl => exact start
        | tail _ edge ih => exact closed _ ih _ edge
      obtain ⟨path, path_⟩ := h.routePath inside
      obtain ⟨path', extended, kept⟩ := path_.extend (.head edge reaches)
      obtain ⟨behind, rfl⟩ := path_.cons
      exact ⟨path', extended, kept f List.mem_cons_self⟩
    · obtain ⟨path, path_⟩ := h.routePath (mem_routedNames.mp node)
      obtain ⟨behind, rfl⟩ := path_.cons
      exact ⟨_, path_, List.mem_cons_self⟩
  · rintro ⟨path, path_, inside⟩
    rcases Relation.ReflTransGen.cases_head
      (path_.reaches f inside) with same | ⟨before, edge, reaches⟩
    · exact .inr same.symm
    · exact .inl ⟨before, edge, reaches⟩

/-- The flows that may have run when the routes of a routed flow are evaluated are those on the route
paths to it, and their retry flows. -/
theorem Accepts.mem_mayHaveRun (h : Accepts plan retryOf graph) {f name : String}
    (single : isRouted plan name = true) : f ∈ graph.mayHaveRun name ↔
      ∃ path, RoutePath plan path name ∧ ∃ other ∈ path, f = other ∨ (f, other) ∈ retryOf := by
  have retries {other : String} (inside : isRouted plan other = true) :
      f ∈ graph.retryFor other ↔ (f, other) ∈ retryOf := by
    unfold Graph.retryFor
    rw [h.analysed]
    constructor
    · intro mem
      obtain ⟨⟨retry, owner⟩, own, rfl⟩ := List.mem_map.mp mem
      obtain ⟨among, same⟩ := List.mem_filter.mp own
      obtain rfl : owner = other := of_decide_eq_true same
      have among : (retry, owner) ∈ retryOf.filter fun entry => isRouted plan entry.2 := among
      exact (List.mem_filter.mp among).1
    · intro mem
      exact List.mem_map.mpr ⟨(f, other), List.mem_filter.mpr
        ⟨List.mem_filter.mpr ⟨mem, inside⟩, decide_eq_true rfl⟩, rfl⟩
  unfold Graph.mayHaveRun
  rw [List.mem_append, List.mem_flatMap, h.mem_ancestors single]
  constructor
  · rintro (⟨path, path_, inside⟩ | ⟨other, before, own⟩)
    · exact ⟨path, path_, f, inside, .inl rfl⟩
    · obtain ⟨path, path_, inside⟩ := (h.mem_ancestors single).mp before
      exact ⟨path, path_, other, inside, .inr ((retries (path_.routed h other inside)).mp own)⟩
  · rintro ⟨path, path_, other, inside, rfl | own⟩
    · exact .inl ⟨path, path_, inside⟩
    · exact .inr ⟨other, (h.mem_ancestors single).mpr ⟨path, path_, inside⟩,
        (retries (path_.routed h other inside)).mpr own⟩

end Paths

/-! ## Routes of runs -/

section Routes

variable {plan : WorkflowPlan} {retryOf : List (String × String)} {graph : Graph} {name : String}
  {records : Records} {seen : List (Boundary × Records)} {behind : List String}

/-- The flow has finished with a result. -/
def Ended (records : Records) (name : String) : Prop :=
  ∃ record, records.lookup name = some record ∧ Finished record

/-- A flow other than a routed flow, that the flow does not own for its retries, keeps its record. -/
theorem Accepts.apart (h : Accepts plan retryOf graph) {flow : FlowPlan} (mem : flow ∈ plan.flows)
    {f : String} (ne : f ≠ flow.name) (foreign : (f, flow.name) ∉ retryOf) : Apart flow f := by
  refine ⟨ne, fun rep repeats retries => ?_⟩
  exact foreign (h.owners.owns flow mem rep f repeats retries)

/-- Retry flows are callable. -/
theorem Accepts.retry_callable (h : Accepts plan retryOf graph) {f owner : String}
    (routed_ : isRouted plan f = true) : (f, owner) ∉ retryOf := by
  intro owned
  obtain ⟨-, target, known, callable, -⟩ := h.owners.accepted _ owned
  obtain ⟨flow, known', single⟩ := isRouted_spec routed_
  obtain rfl := Option.some.inj (known'.symm.trans known)
  rw [single] at callable
  cases callable

/-- The flows that are entered on a route, in order. -/
def enteredFlows (seen : List (Boundary × Records)) : List String :=
  seen.filterMap fun visit =>
    match visit.1 with
    | .input name => some name
    | _ => none

/-- The flows that are entered continue the path. -/
theorem Route.path (route : Route plan name records seen)
    (before : RoutePath plan (name :: behind) name) :
    enteredFlows seen = [] ∨ ∃ last, RoutePath plan ((enteredFlows seen).reverse ++ behind) last := by
  induction route generalizing behind with
  | idle => exact .inl rfl
  | entered => exact .inr ⟨_, before⟩
  | left => exact .inr ⟨_, before⟩
  | @next flow records records' name seen mem _ _ _ leads _ ih =>
    refine .inr ?_
    have all : enteredFlows ((.input flow.name, records) :: (.routes flow.name, records') :: seen) =
        flow.name :: enteredFlows seen := rfl
    rw [all, List.reverse_cons, List.append_assoc, List.singleton_append]
    rcases ih (before.step mem leads) with none_ | further
    · rw [none_]
      exact ⟨_, before⟩
    · exact further

/-- Whatever is on the path to a flow has finished when its input is bound. -/
theorem Route.available (route : Route plan name records seen) (accepted : Accepts plan retryOf graph)
    (before : RoutePath plan (name :: behind) name) (ended : ∀ f ∈ behind, Ended records f)
    {g : String} {recs : Records} (visited : (.input g, recs) ∈ seen) :
    ∃ path, RoutePath plan path g ∧ ∀ f ∈ path, f ≠ g → Ended recs f := by
  have here {name : String} {records : Records} {behind : List String}
      (before : RoutePath plan (name :: behind) name) (ended : ∀ f ∈ behind, Ended records f)
      (same : ((.input g, recs) : Boundary × Records) = (.input name, records)) :
      ∃ path, RoutePath plan path g ∧ ∀ f ∈ path, f ≠ g → Ended recs f := by
    obtain ⟨own, rfl⟩ := Prod.mk.inj same
    obtain rfl := Boundary.input.inj own
    refine ⟨_, before, fun f inside ne => ?_⟩
    exact ended f ((List.mem_cons.mp inside).resolve_left ne)
  have other {name : String} {records : Records}
      (same : ((.input g, recs) : Boundary × Records) = (.routes name, records)) : False := by
    cases same
  induction route generalizing behind with
  | idle => cases visited
  | entered => exact here before ended (List.mem_singleton.mp visited)
  | left =>
    rcases List.mem_cons.mp visited with same | visited
    · exact here before ended same
    · exact absurd (List.mem_singleton.mp visited) other
  | @next flow records records' name seen mem _ kept finished leads _ ih =>
    rcases List.mem_cons.mp visited with same | visited
    · exact here before ended same
    rcases List.mem_cons.mp visited with same | visited
    · exact absurd same other
    refine ih (before.step mem leads)
      (List.forall_mem_cons.mpr ⟨finished, fun f inside => ?_⟩) visited
    obtain ⟨record, known, own⟩ := ended f inside
    have fresh := (List.nodup_cons.mp (before.nodup accepted)).1
    have apart : Apart flow f := by
      refine accepted.apart mem ?_ (accepted.retry_callable ?_)
      · rintro rfl
        exact fresh inside
      · exact before.routed accepted f (List.mem_cons_of_mem _ inside)
    exact ⟨record, (kept f apart).trans known, own⟩

/-- Whatever is neither on the path to a flow nor a retry flow of it has no new record when the routes
of the flow are evaluated. -/
theorem Route.untouched (route : Route plan name records seen) (accepted : Accepts plan retryOf graph)
    (before : RoutePath plan (name :: behind) name) {initial : Records} {f : String}
    (kept : (∀ other ∈ behind, f ≠ other ∧ (f, other) ∉ retryOf) →
      records.lookup f = initial.lookup f)
    {g : String} {recs : Records} (visited : (.routes g, recs) ∈ seen) :
    ∃ path, RoutePath plan path g ∧
      ((∀ other ∈ path, f ≠ other ∧ (f, other) ∉ retryOf) → recs.lookup f = initial.lookup f) := by
  -- The record of a flow apart from a routed flow and its path is still the initial one.
  have step {flow : FlowPlan} {records records' : Records} {behind : List String}
      (mem : flow ∈ plan.flows) (others : OthersKept flow records records')
      (kept : (∀ other ∈ behind, f ≠ other ∧ (f, other) ∉ retryOf) →
        records.lookup f = initial.lookup f) :
      (∀ other ∈ flow.name :: behind, f ≠ other ∧ (f, other) ∉ retryOf) →
        records'.lookup f = initial.lookup f := by
    intro outside
    obtain ⟨⟨ne, foreign⟩, rest⟩ := List.forall_mem_cons.mp outside
    exact (others f (accepted.apart mem ne foreign)).trans (kept rest)
  have other {name : String} {records : Records}
      (same : ((.routes g, recs) : Boundary × Records) = (.input name, records)) : False := by
    cases same
  induction route generalizing behind with
  | idle => cases visited
  | entered => exact absurd (List.mem_singleton.mp visited) other
  | left mem _ others =>
    rcases List.mem_cons.mp visited with same | visited
    · exact absurd same other
    obtain ⟨own, rfl⟩ := Prod.mk.inj (List.mem_singleton.mp visited)
    obtain rfl := Boundary.routes.inj own
    exact ⟨_, before, step mem others kept⟩
  | next mem _ others _ leads _ ih =>
    rcases List.mem_cons.mp visited with same | visited
    · exact absurd same other
    rcases List.mem_cons.mp visited with same | visited
    · obtain ⟨own, rfl⟩ := Prod.mk.inj same
      obtain rfl := Boundary.routes.inj own
      exact ⟨_, before, step mem others kept⟩
    · exact ih (before.step mem leads) (step mem others kept) visited

end Routes

/-! ## A workflow with every kind of edge -/

/-- `1` equals `2`. -/
def neverAuthored : AuthoredCondition :=
  .leaf { source := .literal (.int 1), operator := .equals (.int 2) }

/-- A condition that never holds. -/
def neverLeaf : LeafConditionPlan :=
  { source := .literal (.int 1), operator := .equals, operand := .int 2 }

/-- A collection of one item. -/
def itemsKind : StepKind :=
  .flowCollection (.literal (.arr
      [.obj [("id", .str "a"), ("flow", .str "item"), ("input", .obj [])]]))
    ["item"] 4

/-- The collection calls a flow. -/
theorem items_calls (items : BindingPlan) (flows : List String) (maxItems : ℕ)
    (kind : itemsKind = .flowCollection items flows maxItems) : flows ≠ [] := by
  cases kind
  exact List.cons_ne_nil _ _

/-- The step of the collection. -/
def itemsStep : StepPlan where
  name := "items"
  kind := itemsKind
  calls := items_calls

/-- Two attempts with an adjustment between them. -/
def intakeRepeat : RepeatPlan where
  maxAttempts := 2
  two_le := refineRepeat.two_le
  untilCondition := .leaf neverLeaf
  retryFlow := some "adjust"

/-- A routed flow may lead somewhere. -/
theorem intake_routed {transition : Option TransitionPlan} {review : Option ReviewRoutePlan}
    (callable : false = true) : transition = none ∧ review = none :=
  absurd callable Bool.false_ne_true

/-- A callable flow leads nowhere. -/
theorem intake_called (_ : true = true) :
    (none : Option TransitionPlan) = none ∧ (none : Option ReviewRoutePlan) = none :=
  ⟨rfl, rfl⟩

/-- One step has a name of its own. -/
theorem itemsStep_nodup : ([itemsStep].map StepPlan.name).Nodup := List.nodup_singleton _

/-- The first flow, with a repeat and a retry flow. -/
def intakeFlow : FlowPlan where
  name := "intake"
  steps := [exampleStep]
  transition := some (.route
    { entries := [{ target := { flow := some "close" }, condition := some (.leaf neverLeaf) },
        { target := { flow := some "check" }, condition := none }] })
  repeatPlan := some intakeRepeat
  nodup := exampleFlow.nodup
  called := intake_routed

/-- A flow with a collection. -/
def checkFlow : FlowPlan where
  name := "check"
  steps := [itemsStep]
  transition := some (.direct { flow := some "close" })
  nodup := itemsStep_nodup
  called := intake_routed

/-- The last flow may end the workflow. -/
theorem closing_routed (callable : false = true) :
    some (TransitionPlan.direct { outcome := some .completed }) = none ∧
    (none : Option ReviewRoutePlan) = none :=
  intake_routed callable

/-- The last flow. -/
def closingFlow : FlowPlan where
  name := "close"
  steps := [exampleStep]
  transition := some (.direct { outcome := some .completed })
  nodup := exampleFlow.nodup
  called := closing_routed

/-- A callable flow. -/
def helperFlow (name : String) : FlowPlan where
  name := name
  steps := [exampleStep]
  callable := true
  nodup := exampleFlow.nodup
  called := intake_called

/-- The flows have different names. -/
theorem intake_flows :
    ([intakeFlow, checkFlow, closingFlow, helperFlow "item", helperFlow "adjust"].map
      FlowPlan.name).Nodup := by
  decide

/-- A workflow with a route, a collection, a repeat and a retry flow. -/
def intakePlan : WorkflowPlan where
  name := "intake"
  revision := "1"
  start := .route { entries := [{ target := { flow := some "intake" }, condition := none }] }
  flows := [intakeFlow, checkFlow, closingFlow, helperFlow "item", helperFlow "adjust"]
  nodup := intake_flows

/-- A runner of that workflow. -/
def intakeRunner : WorkflowRunner :=
  { exampleRunner with plan := intakePlan, limits := { maxSteps := 9 } }

/-- The entries of its route are within their bounds. -/
theorem intake_entries : 1 ≤ 2 ∧ 2 ≤ 32 := by decide

/-- The entries of its start are within their bounds. -/
theorem intake_starts : 1 ≤ 1 ∧ 1 ≤ 32 := by decide

/-- An entry leads to a flow or to an outcome. -/
theorem flow_only (name : String) : (some name).isNone ≠ (none : Option Disposition).isNone :=
  Bool.false_ne_true

/-- The route as it was authored. -/
def intakeRouting : ConditionalRouting where
  route := [⟨some neverAuthored, some "close", none, flow_only "close"⟩,
    ⟨none, some "check", none, flow_only "check"⟩]
  bounded := intake_entries

/-- The start as it was authored. -/
def intakeStart : StartRouting := ⟨[⟨none, "intake"⟩], intake_starts⟩

/-- The routes are compiled from what was authored. -/
theorem intake_routes : RoutesCompiled (fun _ => none) asciiTables.casefold intakeRunner.plan where
  start := ⟨.route intakeStart, rfl⟩
  transitions := by
    intro flow mem routed_
    simp only [intakeRunner, intakePlan, List.mem_cons, List.not_mem_nil, or_false] at mem
    rcases mem with rfl | rfl | rfl | rfl | rfl
    · exact ⟨.route intakeRouting, _, rfl, rfl⟩
    · exact ⟨.direct (.flow "close"), _, rfl, rfl⟩
    · exact ⟨.direct (.outcome .completed), _, rfl, rfl⟩
    · cases routed_
    · cases routed_
  reviews := by
    intro flow mem review reviews
    simp only [intakeRunner, intakePlan, List.mem_cons, List.not_mem_nil, or_false] at mem
    rcases mem with rfl | rfl | rfl | rfl | rfl <;> cases reviews

/-- Its repeats are accepted. -/
theorem intake_repeats :
    validateRepeats intakeRunner.plan (fun _ => none) = .ok [("adjust", "intake")] := rfl

/-- Its graph. -/
def intakeGraph : Graph := graphOf intakePlan [("adjust", "intake")]

/-- Its graph is accepted. -/
theorem intake_graph : validateGraph intakeRunner.plan [("adjust", "intake")] = .ok intakeGraph := rfl

/-- Its budget is accepted. -/
theorem intake_budget : validateBudgets intakeRunner.plan intakeGraph (some 9) = .ok (some []) := by
  decide +kernel

/-! ## Runs of an accepted workflow -/

/-- A boundary on a route is a visit. -/
theorem mem_visits {place : Boundary} {records : Records} {log : List Event} (end_ : OnRoute place)
    (mem : .boundary place records ∈ log) : (place, records) ∈ visits log := by
  refine List.mem_filterMap.mpr ⟨_, mem, ?_⟩
  obtain ⟨name, rfl | rfl⟩ := end_ <;> rfl

/-- A visit is a boundary of the log. -/
theorem visited_at {place : Boundary} {log : List Event} {i : ℕ}
    (h : ((visits log)[i]?).map Prod.fst = some place) :
    ∃ records, .boundary place records ∈ log := by
  obtain ⟨⟨place, records⟩, at_, rfl⟩ := Option.map_eq_some_iff.mp h
  obtain ⟨event, mem, own⟩ := List.mem_filterMap.mp (List.mem_of_getElem? at_)
  refine ⟨records, ?_⟩
  split at own
  · cases own
    exact mem
  · cases own
    exact mem
  · cases own

/-- Before a run every flow is skipped. -/
theorem initialRecords_skipped {r : WorkflowRunner} {target : RunTarget} {name : String}
    {record : FlowRecord} (own : (initialRecords r target).lookup name = some record) :
    record.status = .skipped := by
  have mem := Dict.mem_of_mem_ofList (Dict.mem_of_lookup own)
  obtain ⟨flow, -, same⟩ := List.mem_map.mp mem
  obtain ⟨-, rfl⟩ := Prod.mk.inj same
  rfl

/-- The routed flows that a run entered, in order. -/
def entered (log : List Event) : List String := enteredFlows (visits log)

/-- What a run visited. -/
theorem Travels.visits_eq {r : WorkflowRunner} {n : ℕ} {seen : List (Boundary × Records)} {w : World}
    (h : Travels r n seen {} w) : visits w.log = seen := by
  obtain ⟨events, h⟩ := h
  rw [h.log]
  exact h.seen

/-- A diagnostic-free budget covers the most expensive path. -/
theorem withinBudget {plan : WorkflowPlan} {graph : Graph} {maxSteps : ℕ}
    (valid : validateBudgets plan graph (some maxSteps) = .ok (some [])) :
    ∃ c, runCost plan graph = some c ∧ c.1 ≤ maxSteps := by
  unfold validateBudgets at valid
  obtain ⟨_, -, valid⟩ := Except.bind_eq_ok.mp valid
  have quiet : budgetDiagnostics plan graph maxSteps = some [] := Except.pure_eq_ok.mp valid
  unfold budgetDiagnostics at quiet
  obtain ⟨collections, -, quiet⟩ := Option.bind_eq_some_iff.mp quiet
  by_cases empty : collections = []
  · rw [if_pos empty] at quiet
    unfold runWarnings at quiet
    obtain ⟨c, found, quiet⟩ := Option.bind_eq_some_iff.mp quiet
    refine ⟨c, found, ?_⟩
    by_contra exceeds
    simp only [if_neg exceeds] at quiet
    obtain ⟨name, -, quiet⟩ := Option.bind_eq_some_iff.mp quiet
    cases quiet
  · rw [if_neg empty] at quiet
    exact absurd (Option.some.inj quiet) empty

section Runs

variable {r : WorkflowRunner} {declared : FlowPlan → Option (List String)}
  {retryOf : List (String × String)} {graph : Graph} {parse : String → Option Pattern}
  {casefold : ℕ → List ℕ} (routes : RoutesCompiled parse casefold r.plan)
  (repeats : validateRepeats r.plan declared = .ok retryOf)
  (valid : validateGraph r.plan retryOf = .ok graph)
include routes repeats valid

/-- A run of an accepted workflow stays on its graph: no run fails a check that the graph should rule
out, the flows it enters are a route path from a start candidate without a repetition, and what it
records is a journey along authored targets from the selected start to an outcome or a failure. -/
theorem run_staysOnGraph :
    (∀ envelope target, Asks r.plan target → ∀ fault,
      .misrouted fault ∉ (run r envelope target).2.log) ∧
      ∀ envelope, (entered (run r envelope .workflow).2.log).Nodup ∧
        (entered (run r envelope .workflow).2.log = [] ∨
          ∃ last, RoutePath r.plan (entered (run r envelope .workflow).2.log).reverse last) ∧
        RouteRecorded r.plan (run r envelope .workflow).1.start
        (run r envelope .workflow).1.transitions
          (run r envelope .workflow).1.status := by
  have accepted := validateGraph_spec repeats valid
  have routable := routes.routable accepted
  obtain ⟨c, found, -⟩ := accepted.runCost_total
  -- one run of the workflow travels along a route of the graph; the rest is read off its log
  have workflow (envelope : AcceptedEnvelope) :=
    @travels_workflow r envelope retryOf graph accepted routable c found
  have checks {n : ℕ} {seen : List (Boundary × Records)} {w : World}
      (travels : Travels r n seen {} w) :
      ∀ fault, .misrouted fault ∉ w.log := by
    obtain ⟨events, passage⟩ := travels
    rw [passage.log]
    exact passage.checks
  refine ⟨fun envelope target asks => ?_, fun envelope => ?_⟩
  · cases target with
    | workflow =>
      obtain ⟨seen, travels, -⟩ := workflow envelope
      exact checks travels
    | flow name =>
      obtain ⟨flow, mem, rfl⟩ := asks
      obtain ⟨own, travels⟩ := @travels_alone r envelope retryOf graph accepted flow mem
          (.flow flow.name) none
        fun _ => rfl
      exact checks travels
    | step name id =>
      obtain ⟨flow, mem, rfl⟩ := asks
      obtain ⟨own, travels⟩ := @travels_alone r envelope retryOf graph accepted flow mem
          (.step flow.name id)
        (some id) fun _ => rfl
      exact checks travels
  · obtain ⟨seen, travels, visited⟩ := workflow envelope
    have path : entered (run r envelope .workflow).2.log = [] ∨
        ∃ last, RoutePath r.plan (entered (run r envelope .workflow).2.log).reverse last := by
      rw [entered, travels.visits_eq]
      rcases visited with rfl | ⟨start, candidate, route⟩
      · exact .inl rfl
      · have whole := route.path (.start candidate)
        rwa [List.append_nil] at whole
    refine ⟨?_, path, run_route r envelope⟩
    rcases path with none_ | ⟨last, path⟩
    · rw [none_]
      exact List.nodup_nil
    · exact List.nodup_reverse.mp (path.nodup accepted)

omit routes repeats valid in
/-- The run enters every routed flow along the route. -/
theorem intake_staysOnGraph :
    entered (run intakeRunner exampleEnvelope .workflow).2.log = ["intake", "check", "close"] ∧
      (entered (run intakeRunner exampleEnvelope .workflow).2.log).Nodup ∧
      RouteRecorded intakeRunner.plan (run intakeRunner exampleEnvelope .workflow).1.start
        (run intakeRunner exampleEnvelope .workflow).1.transitions
        (run intakeRunner exampleEnvelope .workflow).1.status := by
  obtain ⟨nodup, -, recorded⟩ :=
    (run_staysOnGraph intake_routes intake_repeats intake_graph).2 exampleEnvelope
  exact ⟨by decide +kernel, nodup, recorded⟩

/-- A workflow whose budget has no diagnostic never reaches its limit, and takes no more steps than the
limit that was checked. -/
theorem run_withinBudget {maxSteps : ℕ}
    (budget : validateBudgets r.plan graph (some maxSteps) = .ok (some []))
    (limit : maxSteps ≤ r.limits.maxSteps) (envelope : AcceptedEnvelope) :
    .limitReached ∉ (run r envelope .workflow).2.log ∧
    (run r envelope .workflow).2.consumed ≤ maxSteps := by
  have accepted := validateGraph_spec repeats valid
  obtain ⟨c, found, within⟩ := withinBudget budget
  obtain ⟨seen, ⟨events, passage⟩, -⟩ :=
    @travels_workflow r envelope retryOf graph accepted (routes.routable accepted) c found
  have start : ({} : World).consumed = 0 := rfl
  have spent := passage.consumed
  rw [start, Nat.zero_add] at spent
  refine ⟨fun reached => ?_, spent.trans within⟩
  rw [passage.log] at reached
  have passed := passage.limit reached
  rw [start, Nat.zero_add] at passed
  exact absurd passed (Nat.not_lt.mpr (within.trans limit))

omit routes repeats valid in
/-- Two attempts, the adjustment, the collection with one item, and the last flow take six steps. -/
theorem intake_withinBudget :
    .limitReached ∉ (run intakeRunner exampleEnvelope .workflow).2.log ∧
      (run intakeRunner exampleEnvelope .workflow).2.consumed ≤ 9 ∧
      (run intakeRunner exampleEnvelope .workflow).2.consumed = 6 := by
  obtain ⟨free, within⟩ := run_withinBudget intake_routes intake_repeats intake_graph intake_budget
    le_rfl exampleEnvelope
  exact ⟨free, within, by decide +kernel⟩

variable {flow : FlowPlan} (mem : flow ∈ r.plan.flows) (single : flow.callable = false)
include mem single

/-- The available flows of a routed flow are exactly those on every route path to it, and in every run
each of them has finished with a result when the input of the flow is bound. -/
theorem availableFlows_exact :
    (∀ f, f ∈ graph.availableFlows r.plan flow.name ↔
      f ≠ flow.name ∧ ∀ path, RoutePath r.plan path flow.name → f ∈ path) ∧
    ∀ envelope records, .boundary (.input flow.name) records ∈ (run r envelope .workflow).2.log →
      ∀ f ∈ graph.availableFlows r.plan flow.name, Ended records f := by
  have accepted := validateGraph_spec repeats valid
  have routed_ := mem_routedNames.mp (List.mem_map_of_mem (mem_routedFlows.mpr ⟨mem, single⟩))
  refine ⟨fun f => accepted.mem_availableFlows routed_, fun envelope records bound f available => ?_⟩
  obtain ⟨c, found, -⟩ := accepted.runCost_total
  obtain ⟨seen, travels, visited⟩ :=
    @travels_workflow r envelope retryOf graph accepted (routes.routable accepted) c found
  have visit := mem_visits ⟨_, .inl rfl⟩ bound
  rw [travels.visits_eq] at visit
  rcases visited with rfl | ⟨start, candidate, route⟩
  · cases visit
  obtain ⟨path, path_, ended⟩ :=
    route.available accepted (.start candidate) (List.forall_mem_nil _) visit
  obtain ⟨ne, every⟩ := (accepted.mem_availableFlows routed_).mp available
  exact ended f (every path path_) ne

omit routes repeats valid mem single in
/-- Both the close flow and the check flow follow the intake flow, which may also skip the check. -/
theorem intake_availableFlows :
    "intake" ∈ intakeGraph.availableFlows intakeRunner.plan "close" ∧
      "check" ∉ intakeGraph.availableFlows intakeRunner.plan "close" ∧
      ∃ records, .boundary (.input "close") records ∈
      (run intakeRunner exampleEnvelope .workflow).2.log ∧
        Ended records "intake" := by
  have available : "intake" ∈ intakeGraph.availableFlows intakeRunner.plan "close" := by
    decide +kernel
  obtain ⟨records, bound⟩ :=
      @visited_at (.input "close") (run intakeRunner exampleEnvelope .workflow).2.log 4
    (by decide +kernel)
  have mem : closingFlow ∈ intakeRunner.plan.flows := by
    exact List.mem_cons_of_mem _ (List.mem_cons_of_mem _ List.mem_cons_self)
  refine ⟨available, by decide +kernel, records, bound, ?_⟩
  exact (availableFlows_exact intake_routes intake_repeats intake_graph mem rfl).2
      exampleEnvelope records bound
    "intake" available

/-- The flows that may have run before the routes of a routed flow are exactly those on a route path to
it and their retry flows, and in every run any other flow is still skipped when the routes are
evaluated. -/
theorem mayHaveRun_exact :
    (∀ f, f ∈ graph.mayHaveRun flow.name ↔ ∃ path, RoutePath r.plan path flow.name ∧
      ∃ other ∈ path, f = other ∨ (f, other) ∈ retryOf) ∧
    ∀ envelope records, .boundary (.routes flow.name) records ∈ (run r envelope .workflow).2.log →
      ∀ f, f ∉ graph.mayHaveRun flow.name → ∀ record, records.lookup f = some record →
        record.status = .skipped := by
  have accepted := validateGraph_spec repeats valid
  have routed_ := mem_routedNames.mp (List.mem_map_of_mem (mem_routedFlows.mpr ⟨mem, single⟩))
  refine ⟨fun f => accepted.mem_mayHaveRun
    routed_, fun envelope records reached f outside record own => ?_⟩
  obtain ⟨c, found, -⟩ := accepted.runCost_total
  obtain ⟨seen, travels, visited⟩ :=
    @travels_workflow r envelope retryOf graph accepted (routes.routable accepted) c found
  have visit := mem_visits ⟨_, .inr rfl⟩ reached
  rw [travels.visits_eq] at visit
  rcases visited with rfl | ⟨start, candidate, route⟩
  · cases visit
  obtain ⟨path, path_, kept⟩ := route.untouched accepted (.start candidate) (fun _ => rfl) visit
  have start : (initialRecords r .workflow).lookup f = some record := by
    refine (kept fun other inside => not_or.mp fun ran => outside ?_).symm.trans own
    exact (accepted.mem_mayHaveRun routed_).mpr ⟨path, path_, other, inside, ran⟩
  exact initialRecords_skipped start

omit routes repeats valid mem single in
/-- When the intake flow is left, its retry flow may have run, and the check flow has not. -/
theorem intake_mayHaveRun :
    "adjust" ∈ intakeGraph.mayHaveRun "intake" ∧
      ∃ records, .boundary (.routes "intake") records ∈
      (run intakeRunner exampleEnvelope .workflow).2.log ∧
        ∀ record, records.lookup "check" = some record → record.status = .skipped := by
  obtain ⟨records, reached⟩ :=
      @visited_at (.routes "intake") (run intakeRunner exampleEnvelope .workflow).2.log
    1 (by decide +kernel)
  have mem : intakeFlow ∈ intakeRunner.plan.flows := List.mem_cons_self
  refine ⟨by decide +kernel, records, reached, ?_⟩
  exact (mayHaveRun_exact intake_routes intake_repeats intake_graph mem rfl).2
      exampleEnvelope records reached
    "check" (by decide +kernel)

end Runs

end Foliqant.Compiler
