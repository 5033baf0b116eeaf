import Foliqant.Common.Fallible
import Foliqant.Compiler.Graph

/-!
# What an accepted graph promises

The repeats own their retry flows, every target is declared and of the right kind, and the search
orders all flows so that each one comes before those it leads to.
-/

namespace Foliqant.Compiler

open Foliqant.Core

/-! ## Repeats -/

/-- The retry flows of some flows with their owners. -/
structure RetryOwners (plan : WorkflowPlan) (flows : List FlowPlan)
    (retryOf : List (String × String)) : Prop where
  owns : ∀ flow ∈ flows, ∀ rep retry, flow.repeatPlan = some rep → rep.retryFlow = some retry →
    (retry, flow.name) ∈ retryOf
  owned : ∀ entry ∈ retryOf, ∃ flow ∈ flows, flow.name = entry.2 ∧
    ∃ rep, flow.repeatPlan = some rep ∧ rep.retryFlow = some entry.1
  accepted : ∀ entry ∈ retryOf, entry.1 ≠ entry.2 ∧ ∃ target, plan.flow? entry.1 = some target ∧
    target.callable = true ∧ target.repeatPlan = none
  unique : (Dict.keys retryOf).Nodup

/-- No flows, no owners. -/
theorem RetryOwners.nil {plan : WorkflowPlan} : RetryOwners plan [] [] where
  owns _ h := absurd h List.not_mem_nil
  owned _ h := absurd h List.not_mem_nil
  accepted _ h := absurd h List.not_mem_nil
  unique := List.nodup_nil

/-- A flow without a retry flow owns none. -/
theorem RetryOwners.skip {plan : WorkflowPlan} {flows : List FlowPlan}
    {retryOf : List (String × String)} (h : RetryOwners plan flows retryOf) {flow : FlowPlan}
    (none_ : ∀ rep, flow.repeatPlan = some rep → rep.retryFlow = none) :
    RetryOwners plan (flows ++ [flow]) retryOf where
  owns other mem rep retry repeats retries := by
    rcases List.mem_append.mp mem with mem | mem
    · exact h.owns other mem rep retry repeats retries
    · rw [List.mem_singleton.mp mem] at repeats
      rw [none_ rep repeats] at retries
      cases retries
  owned entry mem := by
    obtain ⟨flow, known, owner⟩ := h.owned entry mem
    exact ⟨flow, List.mem_append_left _ known, owner⟩
  accepted := h.accepted
  unique := h.unique

/-- What is accepted about a retry flow. -/
theorem retryAccepted_spec {plan : WorkflowPlan} {retryOf : List (String × String)}
    {name retry : String} (h : retryAccepted plan retryOf name retry = true) :
    retry ∉ Dict.keys retryOf ∧ retry ≠ name ∧ ∃ target, plan.flow? retry = some target ∧
      target.callable = true ∧ target.repeatPlan = none := by
  unfold retryAccepted at h
  cases known : plan.flow? retry with
  | none =>
    rw [known] at h
    cases h
  | some target =>
    rw [known] at h
    simp only [Bool.and_eq_true, bne_iff_ne, Option.isNone_iff_eq_none] at h
    obtain ⟨⟨⟨callable, ne⟩, fresh⟩, single⟩ := h
    exact ⟨Dict.lookup_eq_none.mp fresh, ne, target, rfl, callable, single⟩

/-- The owner of a new retry flow. -/
theorem RetryOwners.add {plan : WorkflowPlan} {flows : List FlowPlan}
    {retryOf : List (String × String)} (h : RetryOwners plan flows retryOf) {flow : FlowPlan}
    {rep : RepeatPlan} {retry : String} (repeats : flow.repeatPlan = some rep)
    (retries : rep.retryFlow = some retry)
    (accepted : retryAccepted plan retryOf flow.name retry = true) :
    RetryOwners plan (flows ++ [flow]) (retryOf ++ [(retry, flow.name)]) where
  owns other mem rep' retry' repeats' retries' := by
    rcases List.mem_append.mp mem with mem | mem
    · exact List.mem_append_left _ (h.owns other mem rep' retry' repeats' retries')
    · rw [List.mem_singleton.mp mem] at repeats' ⊢
      rw [repeats] at repeats'
      cases repeats'
      rw [retries] at retries'
      cases retries'
      exact List.mem_append_right _ List.mem_cons_self
  owned entry mem := by
    rcases List.mem_append.mp mem with mem | mem
    · obtain ⟨flow, known, owner⟩ := h.owned entry mem
      exact ⟨flow, List.mem_append_left _ known, owner⟩
    · rw [List.mem_singleton.mp mem]
      exact ⟨flow, List.mem_append_right _ List.mem_cons_self, rfl, rep, repeats, retries⟩
  accepted entry mem := by
    rcases List.mem_append.mp mem with mem | mem
    · exact h.accepted entry mem
    · rw [List.mem_singleton.mp mem]
      exact (retryAccepted_spec accepted).2
  unique := by
    rw [Dict.keys, List.map_append]
    refine List.Nodup.append h.unique (List.nodup_singleton _) ?_
    intro name known new
    rw [List.mem_singleton.mp new] at known
    exact (retryAccepted_spec accepted).1 known

/-- What is accepted about a flow's repeat. -/
theorem validateRepeat_spec {plan : WorkflowPlan} {declared : FlowPlan → Option (List String)}
    {flows : List FlowPlan} {flow : FlowPlan} {retryOf retryOf' : List (String × String)}
    (owners : RetryOwners plan flows retryOf)
    (h : validateRepeat plan declared retryOf flow = .ok retryOf') :
    RetryOwners plan (flows ++ [flow]) retryOf' := by
  unfold validateRepeat at h
  cases repeats : flow.repeatPlan with
  | none =>
    rw [repeats] at h
    cases h
    exact owners.skip fun rep h => by
      rw [repeats] at h
      cases h
  | some rep =>
    rw [repeats] at h
    obtain ⟨_, -, h⟩ := Except.bind_eq_ok.mp h
    cases retries : rep.retryFlow with
    | none =>
      simp only [retries] at h
      obtain ⟨_, -, h⟩ := Except.bind_eq_ok.mp h
      cases h
      refine owners.skip fun rep' h => ?_
      rw [repeats] at h
      cases h
      exact retries
    | some retry =>
      simp only [retries] at h
      obtain ⟨_, accepted, h⟩ := Except.bind_eq_ok.mp h
      cases h
      exact owners.add repeats retries (require_eq_ok.mp accepted)

/-- What is accepted about all repeats. -/
theorem validateRepeats_spec {plan : WorkflowPlan} {declared : FlowPlan → Option (List String)}
    {retryOf : List (String × String)} (h : validateRepeats plan declared = .ok retryOf) :
    RetryOwners plan plan.flows retryOf := by
  have := Except.foldlM_invariant (RetryOwners plan)
    (fun _ _ _ _ owners h => validateRepeat_spec owners h) RetryOwners.nil h
  rwa [List.nil_append] at this

/-! ## The graph -/

/-- An accepted workflow graph with its retry owners. -/
structure Accepts (plan : WorkflowPlan) (retryOf : List (String × String)) (graph : Graph) :
    Prop where
  owners : RetryOwners plan plan.flows retryOf
  starts : ∀ name ∈ startPaths plan, isRouted plan name = true
  targets : ∀ flow ∈ plan.flows, checkTargets plan flow = .ok ()
  reviews : ∀ flow ∈ plan.flows, checkReviews plan flow = .ok ()
  searched : ∃ visited, search plan retryOf = .ok visited ∧
    ∀ flow ∈ plan.flows, flow.name ∈ Dict.keys visited
  analysed : graph = graphOf plan retryOf

/-- What is accepted about the graph. -/
theorem validateGraph_spec {plan : WorkflowPlan} {declared : FlowPlan → Option (List String)}
    {retryOf : List (String × String)} {graph : Graph}
    (repeats : validateRepeats plan declared = .ok retryOf)
    (h : validateGraph plan retryOf = .ok graph) : Accepts plan retryOf graph := by
  unfold validateGraph at h
  obtain ⟨_, starts, h⟩ := Except.bind_eq_ok.mp h
  obtain ⟨_, targets, h⟩ := Except.bind_eq_ok.mp h
  obtain ⟨_, reviews, h⟩ := Except.bind_eq_ok.mp h
  obtain ⟨visited, searched, h⟩ := Except.bind_eq_ok.mp h
  obtain ⟨_, all, h⟩ := Except.bind_eq_ok.mp h
  cases h
  refine ⟨validateRepeats_spec repeats, ?_, Except.forM_eq_ok.mp targets,
    Except.forM_eq_ok.mp reviews, ⟨visited, searched, ?_⟩, rfl⟩
  · intro name mem
    exact require_eq_ok.mp (Except.forM_eq_ok.mp starts name mem)
  · intro flow mem
    have := List.all_eq_true.mp (require_eq_ok.mp all) flow mem
    simpa using this

/-- A routed flow is one of the plan. -/
theorem isRouted_spec {plan : WorkflowPlan} {name : String} (h : isRouted plan name = true) :
    ∃ flow, plan.flow? name = some flow ∧ flow.callable = false := by
  unfold isRouted at h
  cases known : plan.flow? name with
  | none =>
    rw [known] at h
    cases h
  | some flow =>
    rw [known] at h
    exact ⟨flow, rfl, by simpa using h⟩

/-- A callable flow is one of the plan. -/
theorem isCallable_spec {plan : WorkflowPlan} {name : String} (h : isCallable plan name = true) :
    ∃ flow, plan.flow? name = some flow ∧ flow.callable = true := by
  unfold isCallable at h
  cases known : plan.flow? name with
  | none =>
    rw [known] at h
    cases h
  | some flow =>
    rw [known] at h
    exact ⟨flow, rfl, by simpa using h⟩

/-- What is read off a flow by its name. -/
theorem ofName_of_mem {plan : WorkflowPlan} {α : Type} (f : FlowPlan → List α) {flow : FlowPlan}
    (h : flow ∈ plan.flows) : ofName plan f flow.name = f flow := by
  rw [ofName, WorkflowPlan.flow?_of_mem h]
  rfl

/-- The located targets are the targets. -/
theorem mem_locatedTargets {transition : TransitionPlan} {target : TransitionTargetPlan} :
    target ∈ locatedTargets transition ↔ target ∈ routeTargets transition := by
  cases transition with
  | direct target => exact Iff.rfl
  | route route => exact Iff.rfl
  | cases route =>
    rw [locatedTargets, routeTargets, List.mem_append, List.mem_singleton, List.mem_cons]
    exact or_comm

/-- The located targets of a routed flow are its targets. -/
theorem mem_flowLocatedTargets {flow : FlowPlan} {target : TransitionTargetPlan} :
    target ∈ flowLocatedTargets flow ↔ target ∈ flowTargets flow := by
  unfold flowLocatedTargets flowTargets flowTransitions
  cases callable : flow.callable with
  | true =>
    obtain ⟨transition, review⟩ := flow.called callable
    simp [flowReviews, transition, review]
  | false =>
    rw [if_neg Bool.false_ne_true, List.mem_append, List.mem_append]
    cases flow.transition with
    | none => exact Iff.rfl
    | some transition => exact or_congr_left mem_locatedTargets

section Accepted

variable {plan : WorkflowPlan} {retryOf : List (String × String)} {graph : Graph}

/-- The flows that a flow routes to. -/
theorem mem_routed {flow : FlowPlan} {name : String} :
    name ∈ routed flow ↔ ∃ target ∈ flowTargets flow, target.flow = some name := by
  rw [routed, List.mem_eraseDups, List.mem_filterMap]

/-- The flows that a flow leads to or calls. -/
theorem mem_successors {flow : FlowPlan} (mem : flow ∈ plan.flows) {name : String} :
    name ∈ successors plan retryOf flow.name ↔
      name ∈ routed flow ∨ name ∈ collectionTargets flow ∨ (name, flow.name) ∈ retryOf := by
  rw [successors, ofName_of_mem (edges retryOf) mem]
  simp only [edges, List.mem_map, List.mem_eraseDups, List.mem_append, List.mem_filterMap,
    mem_flowLocatedTargets, List.mem_filter, mem_routed]
  constructor
  · rintro ⟨⟨_, _⟩, (⟨other, target, ⟨⟩⟩ | ⟨other, calls, ⟨⟩⟩) |
      ⟨other, ⟨⟨retry, owner⟩, ⟨mem, same⟩, rfl⟩, ⟨⟩⟩, rfl⟩
    · exact .inl target
    · exact .inr (.inl calls)
    · refine .inr (.inr ?_)
      rwa [← of_decide_eq_true same]
  · rintro (target | calls | retries)
    · exact ⟨(name, 0), .inl (.inl ⟨name, target, rfl⟩), rfl⟩
    · exact ⟨(name, 1), .inl (.inr ⟨name, calls, rfl⟩), rfl⟩
    · exact ⟨(name, 0), .inr ⟨name, ⟨(name, flow.name), ⟨retries, by simp⟩, rfl⟩, rfl⟩, rfl⟩

/-- What is accepted about a target. -/
theorem checkTarget_spec {target : TransitionTargetPlan} (h : checkTarget plan target = .ok ())
    {name : String} (flow : target.flow = some name) : isRouted plan name = true := by
  simp only [checkTarget, flow] at h
  unfold isRouted
  cases known : plan.flow? name with
  | none =>
    rw [known] at h
    cases h
  | some flow =>
    rw [known] at h
    simpa using require_eq_ok.mp h

/-- Every target of a flow is a routed flow, and every collection calls callable flows. -/
theorem Accepts.target_routed (h : Accepts plan retryOf graph) {flow : FlowPlan}
    (mem : flow ∈ plan.flows) {name : String} (target : name ∈ routed flow) :
    isRouted plan name = true := by
  have checked := h.targets flow mem
  unfold checkTargets at checked
  obtain ⟨_, -, checked⟩ := Except.bind_eq_ok.mp checked
  obtain ⟨_, targets, -⟩ := Except.bind_eq_ok.mp checked
  obtain ⟨target, located, name⟩ := mem_routed.mp target
  exact checkTarget_spec (Except.forM_eq_ok.mp targets target (mem_flowLocatedTargets.mpr located))
    name

/-- Called flows are callable. -/
theorem Accepts.call_callable (h : Accepts plan retryOf graph) {flow : FlowPlan}
    (mem : flow ∈ plan.flows) {name : String} (calls : name ∈ collectionTargets flow) :
    isCallable plan name = true := by
  have checked := h.targets flow mem
  unfold checkTargets at checked
  obtain ⟨_, -, checked⟩ := Except.bind_eq_ok.mp checked
  obtain ⟨_, -, targets⟩ := Except.bind_eq_ok.mp checked
  exact require_eq_ok.mp (Except.forM_eq_ok.mp targets name calls)

/-- The search leaves all flows in topological order. -/
theorem Accepts.topological (h : Accepts plan retryOf graph) :
    ∃ visited, DepthFirst.Topological (successors plan retryOf) (finishFlow plan retryOf) visited ∧
      (∀ flow ∈ plan.flows, flow.name ∈ Dict.keys visited) ∧
      ∀ name ∈ Dict.keys visited, ∃ start ∈ Compiler.starts plan,
        Digraph.Reaches (successors plan retryOf) start name := by
  obtain ⟨visited, searched, all⟩ := h.searched
  have extends_ := DepthFirst.visitAll_extends .nil searched
  refine ⟨visited, extends_.topological, all, ?_⟩
  intro name mem
  exact (extends_.reached name mem).resolve_left (by simp)

end Accepted

end Foliqant.Compiler
