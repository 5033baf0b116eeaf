import Foliqant.Application.Explain
import Foliqant.Compiler.Routing
import Foliqant.Core.RepeatProtocol
import Foliqant.Core.RunRecords

/-!
# The explain graph covers the runtime

There is a graph exactly when the operands that its labels show can be written. What its edges have in common
with recorded boundaries are their keys. A key belongs to one group of edges: those of the start, or the
transition or review edges of one flow. Within a group the keys differ, so an edge with the key of a recorded
boundary is the only one. The calls are checked by the runner with checked calls.
-/

namespace Foliqant.Application

open Foliqant.Core Compiler Evaluation Emission

/-! ## When there is a graph -/

section Success

variable {texts : LabelTexts}

/-- Every operand that a label of a list of conditions shows can be written. -/
def AllWrite (conditions : List ConditionPlan) : Prop :=
  ∀ condition ∈ conditions, LabelWrites condition

/-- The conditions that the document of a flow shows. -/
def flowConditions (flow : FlowPlan) : List ConditionPlan :=
  flow.steps.filterMap StepPlan.guard ++ ((transitionRoute flow).elim [] routeConditions ++
    ((reviewRoute flow).elim [] routeConditions ++ (repeatConditions flow).map Prod.snd))

/-- Every operand that a label of the graph shows can be written. -/
def Labelled (plan : WorkflowPlan) : Prop :=
  AllWrite (startConditions plan.start) ∧ ∀ flow ∈ plan.flows, AllWrite (flowConditions flow)

/-- Several conditions have labels when all their operands can be written. -/
theorem mapM_conditionLabel {relativeTo : Option String} {conditions : List ConditionPlan} :
    (conditions.mapM (conditionLabel texts relativeTo)).Succeeds ↔ AllWrite conditions :=
  List.succeeds_mapM.trans (forall₂_congr fun _ _ => conditionLabel_succeeds)

/-- A route has edges when its conditions have labels. -/
theorem routeEdges_succeeds {source : String} {kind : EdgeKind} {inherited : Bool}
    {route : RoutePlan} :
    (routeEdges texts source kind inherited route).Succeeds ↔ AllWrite (routeConditions route) := by
  cases route with
  | direct _ | cases _ | issues _ => exact iff_of_true (Except.succeeds_ok _) nofun
  | route route =>
    have each (entry : RouteEntryPlan) (index : ℕ) :
        (entryEdge texts source kind inherited entry index).Succeeds ↔
          ∀ condition ∈ entry.condition, LabelWrites condition := by
      refine Except.succeeds_map.trans ?_
      cases entry.condition with
      | none => exact iff_of_true (Except.succeeds_ok _) nofun
      | some condition =>
        refine conditionLabel_succeeds.trans ?_
        simp
    refine List.succeeds_mapM.trans ?_
    simp only [each]
    unfold AllWrite routeConditions
    constructor
    · intro all condition mem
      obtain ⟨entry, among, own⟩ := List.mem_filterMap.mp mem
      obtain ⟨index, at_⟩ := List.mem_iff_getElem?.mp among
      exact all (entry, index) (List.mem_zipIdx_iff_getElem?.mpr at_) condition own
    · rintro all ⟨entry, index⟩ mem condition own
      exact all condition (List.mem_filterMap.mpr
        ⟨entry, List.mem_of_getElem? (List.mem_zipIdx_iff_getElem?.mp mem), own⟩)

/-- The start has edges when its conditions have labels. -/
theorem startEdges_succeeds {start : StartPlan} :
    (startEdges texts start).Succeeds ↔ AllWrite (startConditions start) := by
  cases start with
  | flow name => exact iff_of_true (Except.succeeds_ok _) nofun
  | route route => exact @routeEdges_succeeds texts START .start false (.route route)

/-- The optional route of a flow has edges when its conditions have labels. -/
theorem transitionEdges_succeeds {flow : FlowPlan} : (transitionEdges texts flow).Succeeds ↔
    AllWrite ((transitionRoute flow).elim [] routeConditions) := by
  unfold transitionEdges
  cases transitionRoute flow with
  | none => exact iff_of_true (Except.succeeds_ok _) nofun
  | some route => exact routeEdges_succeeds

/-- A review has edges when its conditions can be written. -/
theorem reviewEdges_succeeds {flow : FlowPlan} : (reviewEdges texts flow).Succeeds ↔
    AllWrite ((reviewRoute flow).elim [] routeConditions) := by
  unfold reviewEdges
  cases reviewRoute flow with
  | none => exact iff_of_true (Except.succeeds_ok _) nofun
  | some route => exact routeEdges_succeeds

/-- The call of a retry flow is labelled when the conditions of the repeat are. -/
theorem retryEdges_succeeds {flow : FlowPlan}
    (write : AllWrite ((repeatConditions flow).map Prod.snd)) :
    (retryEdges texts flow).Succeeds := by
  unfold retryEdges
  unfold repeatConditions at write
  cases repeats : flow.repeatPlan with
  | none => exact Except.succeeds_ok _
  | some rep =>
    rw [repeats] at write
    dsimp only at write ⊢
    cases retry : rep.retryFlow with
    | none => exact Except.succeeds_ok _
    | some destination =>
      rw [retry] at write
      refine Except.succeeds_map.mpr ?_
      cases continues : rep.continueWhen with
      | none => exact Except.succeeds_ok _
      | some condition =>
        refine Except.succeeds_map.mpr (conditionLabel_succeeds.mpr (write condition ?_))
        rw [continues]
        exact List.mem_cons_of_mem _ List.mem_cons_self

/-- The document of a flow has its labels when all their operands can be written. -/
theorem flowLabels_succeeds {flow : FlowPlan} :
    (flowLabels texts flow).Succeeds ↔ AllWrite (flowConditions flow) := by
  have repeated : ((repeatConditions flow).mapM fun entry =>
      conditionLabel texts entry.1 entry.2).Succeeds ↔
        AllWrite ((repeatConditions flow).map Prod.snd) := by
    refine List.succeeds_mapM.trans ?_
    unfold AllWrite
    rw [List.forall_mem_map]
    exact forall₂_congr fun _ _ => conditionLabel_succeeds
  unfold flowLabels flowConditions AllWrite
  rw [List.forall_mem_append, List.forall_mem_append, List.forall_mem_append]
  refine (Except.succeeds_bind fun _ _ => ?_).trans (and_congr_left' mapM_conditionLabel)
  refine (Except.succeeds_bind fun _ _ => ?_).trans (and_congr_left' mapM_conditionLabel)
  refine (Except.succeeds_bind fun _ _ => ?_).trans (and_congr_left' mapM_conditionLabel)
  exact Except.succeeds_map.trans repeated

/-- A flow has a node and edges when the operands of its labels can be written. -/
theorem graphFlow_succeeds {flow : FlowPlan} :
    (graphFlow texts flow).Succeeds ↔ AllWrite (flowConditions flow) := by
  constructor
  · intro made
    rw [← @flowLabels_succeeds texts]
    obtain ⟨node, made⟩ := made
    obtain ⟨labels, made, -⟩ := Except.bind_eq_ok.mp made
    exact ⟨labels, made⟩
  · intro write
    obtain ⟨labels, labelled⟩ := (@flowLabels_succeeds texts flow).mpr write
    unfold flowConditions AllWrite at write
    rw [List.forall_mem_append, List.forall_mem_append, List.forall_mem_append] at write
    obtain ⟨-, transition, review, repeated⟩ := write
    obtain ⟨first, firstMade⟩ := (@transitionEdges_succeeds texts flow).mpr transition
    obtain ⟨second, secondMade⟩ := (@reviewEdges_succeeds texts flow).mpr review
    obtain ⟨third, thirdMade⟩ := @retryEdges_succeeds texts flow repeated
    have edges : flowEdges texts flow =
        .ok (first ++ (second ++ (flow.steps.flatMap (collectionEdges flow) ++ third))) := by
      unfold flowEdges
      rw [firstMade, secondMade, thirdMade]
      rfl
    exact ⟨_, Except.bind_eq_ok.mpr ⟨labels, labelled, Except.bind_eq_ok.mpr ⟨_, edges, rfl⟩⟩⟩

/-- A workflow has a graph exactly when the operands that its labels show can be written. -/
theorem workflowGraph_succeeds {plan : WorkflowPlan} :
    (workflowGraph texts plan).Succeeds ↔ Labelled plan := by
  have flows : (plan.flows.mapM (graphFlow texts)).Succeeds ↔
      ∀ flow ∈ plan.flows, AllWrite (flowConditions flow) :=
    List.succeeds_mapM.trans (forall₂_congr fun _ _ => graphFlow_succeeds)
  unfold Labelled
  rw [← @mapM_conditionLabel texts none, ← flows]
  constructor
  · rintro ⟨graph, made⟩
    obtain ⟨labels, labelled, made⟩ := Except.bind_eq_ok.mp made
    obtain ⟨start, -, made⟩ := Except.bind_eq_ok.mp made
    exact ⟨⟨labels, labelled⟩, Except.succeeds_map.mp ⟨graph, made⟩⟩
  · rintro ⟨⟨labels, labelled⟩, nodes, made⟩
    obtain ⟨start, started⟩ := startEdges_succeeds.mpr (mapM_conditionLabel.mp ⟨labels, labelled⟩)
    exact ⟨_, Except.bind_eq_ok.mpr ⟨labels, labelled, Except.bind_eq_ok.mpr ⟨start, started,
      Except.bind_eq_ok.mpr ⟨nodes, made, rfl⟩⟩⟩⟩

end Success

/-! ## The keys of the edges -/

section Keys

/-- The keys of the edges of a route. -/
def RoutePlan.keys (source : String) (kind : EdgeKind) : RoutePlan → List EdgeKey
  | .direct destination =>
      [⟨source, target destination, kind, if kind = .review then .review else .direct, none, none⟩]
  | .cases matching =>
      (matching.cases.map fun entry => ⟨source, target entry.2, kind, .cases, none, some entry.1⟩) ++
        [⟨source, target matching.default, kind, .cases, none, none⟩]
  | .route conditional => conditional.entries.zipIdx.map fun entry =>
      ⟨source, target entry.1.target, kind, if kind = .review then .review else .route,
        some entry.2, none⟩
  | .issues unresolved =>
      ⟨source, target unresolved.default, kind, .review, none, none⟩ ::
        unresolved.issues.map fun entry =>
        ⟨source, target entry.2, kind, .review, none, some entry.1.value⟩

/-- The keys of the start. -/
def startKeys : StartPlan → List EdgeKey
  | .flow name => [⟨START, name, .start, .direct, none, none⟩]
  | .route route => RoutePlan.keys START .start (.route route)

/-- The keys of the transition of a flow. -/
def transitionKeys (flow : FlowPlan) : List EdgeKey :=
  (transitionRoute flow).elim [] (RoutePlan.keys flow.name .transition)

/-- The keys of the review route of a flow. -/
def reviewKeys (flow : FlowPlan) : List EdgeKey :=
  (reviewRoute flow).elim [] (RoutePlan.keys flow.name .review)

/-- The keys of the calls of a flow. -/
def callKeys (flow : FlowPlan) : List EdgeKey :=
  flow.steps.flatMap (fun step => (collectionEdges flow step).map GraphEdge.key) ++
    ((flow.repeatPlan.bind RepeatPlan.retryFlow).map fun name =>
      (⟨flow.name, name, .retry, .call, none, none⟩ : EdgeKey)).toList

/-- The keys of a flow. -/
def flowKeys (flow : FlowPlan) : List EdgeKey :=
  transitionKeys flow ++ (reviewKeys flow ++ callKeys flow)

/-- The keys of a workflow. -/
def workflowKeys (plan : WorkflowPlan) : List EdgeKey :=
  startKeys plan.start ++ plan.flows.flatMap flowKeys

variable {texts : LabelTexts} {edges : List GraphEdge}

/-- The labels do not matter for the keys of a route. -/
theorem routeEdges_keys {source : String} {kind : EdgeKind} {inherited : Bool} {route : RoutePlan}
    (made : routeEdges texts source kind inherited route = .ok edges) :
    edges.map GraphEdge.key = route.keys source kind := by
  cases route with
  | direct destination =>
    obtain rfl := Except.ok.inj made
    rfl
  | cases route =>
    obtain rfl := Except.ok.inj made
    rw [List.map_append, List.map_map]
    rfl
  | issues route =>
    obtain rfl := Except.ok.inj made
    rw [List.map_cons, List.map_map]
    rfl
  | route route =>
    refine (List.mapM_eq_ok.mp made).map_eq_map fun entry edge own => ?_
    obtain ⟨label, -, same⟩ := Except.bind_eq_ok.mp own
    obtain rfl := Except.pure_eq_ok.mp same
    rfl

/-- The edges of the start. -/
theorem startEdges_keys {start : StartPlan} (made : startEdges texts start = .ok edges) :
    edges.map GraphEdge.key = startKeys start := by
  cases start with
  | flow name =>
    obtain rfl := Except.ok.inj made
    rfl
  | route route => exact @routeEdges_keys texts edges START .start false (.route route) made

/-- The edges of a transition. -/
theorem transitionEdges_keys {flow : FlowPlan} (made : transitionEdges texts flow = .ok edges) :
    edges.map GraphEdge.key = transitionKeys flow := by
  unfold transitionEdges at made
  unfold transitionKeys
  cases route : transitionRoute flow with
  | none =>
    rw [route] at made
    obtain rfl := Except.ok.inj made
    rfl
  | some route =>
    rw [route] at made
    exact routeEdges_keys made

/-- The edges of a review. -/
theorem reviewEdges_keys {flow : FlowPlan} (made : reviewEdges texts flow = .ok edges) :
    edges.map GraphEdge.key = reviewKeys flow := by
  unfold reviewEdges at made
  unfold reviewKeys
  cases route : reviewRoute flow with
  | none =>
    rw [route] at made
    obtain rfl := Except.ok.inj made
    rfl
  | some route =>
    rw [route] at made
    exact routeEdges_keys made

/-- The edge of a retry flow. -/
theorem retryEdges_keys {flow : FlowPlan} (made : retryEdges texts flow = .ok edges) :
    edges.map GraphEdge.key = ((flow.repeatPlan.bind RepeatPlan.retryFlow).map fun name =>
      (⟨flow.name, name, .retry, .call, none, none⟩ : EdgeKey)).toList := by
  unfold retryEdges at made
  cases repeats : flow.repeatPlan with
  | none =>
    rw [repeats] at made
    obtain rfl := Except.ok.inj made
    rfl
  | some rep =>
    rw [repeats] at made
    dsimp only at made
    rw [Option.bind_some]
    cases retry : rep.retryFlow with
    | none =>
      rw [retry] at made
      obtain rfl := Except.ok.inj made
      rfl
    | some destination =>
      rw [retry] at made
      obtain ⟨label, -, same⟩ := Except.bind_eq_ok.mp made
      obtain rfl := Except.pure_eq_ok.mp same
      rfl

/-- The edges of a flow. -/
theorem flowEdges_keys {flow : FlowPlan} (made : flowEdges texts flow = .ok edges) :
    edges.map GraphEdge.key = flowKeys flow := by
  obtain ⟨transition, first, made⟩ := Except.bind_eq_ok.mp made
  obtain ⟨review, second, made⟩ := Except.bind_eq_ok.mp made
  obtain ⟨retry, third, same⟩ := Except.bind_eq_ok.mp made
  obtain rfl := Except.pure_eq_ok.mp same
  rw [List.map_append, List.map_append, List.map_append, transitionEdges_keys first,
    reviewEdges_keys second, retryEdges_keys third, List.map_flatMap]
  rfl

/-- The keys of a graph do not depend on its labels. -/
theorem workflowGraph_keys {plan : WorkflowPlan} {graph : WorkflowGraph}
    (made : workflowGraph texts plan = .ok graph) :
    graph.edges.map GraphEdge.key = workflowKeys plan := by
  obtain ⟨labels, -, made⟩ := Except.bind_eq_ok.mp made
  obtain ⟨start, started, made⟩ := Except.bind_eq_ok.mp made
  obtain ⟨nodes, flows, same⟩ := Except.bind_eq_ok.mp made
  obtain rfl := Except.pure_eq_ok.mp same
  have each : nodes.map (fun node => node.2.map GraphEdge.key) = plan.flows.map flowKeys := by
    refine (List.mapM_eq_ok.mp flows).map_eq_map fun flow node own => ?_
    obtain ⟨labels, -, rest⟩ := Except.bind_eq_ok.mp own
    obtain ⟨edges, made, same⟩ := Except.bind_eq_ok.mp rest
    obtain rfl := Except.pure_eq_ok.mp same
    exact flowEdges_keys made
  rw [List.map_append, startEdges_keys started, List.map_flatMap, List.flatMap_def, each]
  rfl

end Keys

/-! ## Counting keys -/

section Counts

variable {source : String} {kind : EdgeKind}

/-- Edges are counted by their keys. -/
theorem edgeCount_eq (edges : List GraphEdge) (key : EdgeKey) :
    edgeCount edges key = (edges.map GraphEdge.key).count key := by
  rw [List.count, List.countP_map, edgeCount]
  refine List.countP_congr fun edge _ => ?_
  simp

/-- The keys of a route have the source and the kind they are made for. -/
theorem routeKeys_group (route : RoutePlan) :
    ∀ key ∈ route.keys source kind, key.source = source ∧ key.kind = kind := by
  intro key mem
  cases route with
  | direct destination =>
    obtain rfl := List.mem_singleton.mp mem
    exact ⟨rfl, rfl⟩
  | cases route =>
    rcases List.mem_append.mp mem with keyed | default
    · obtain ⟨entry, -, rfl⟩ := List.mem_map.mp keyed
      exact ⟨rfl, rfl⟩
    · obtain rfl := List.mem_singleton.mp default
      exact ⟨rfl, rfl⟩
  | route route =>
    obtain ⟨entry, -, rfl⟩ := List.mem_map.mp mem
    exact ⟨rfl, rfl⟩
  | issues route =>
    rcases List.mem_cons.mp mem with rfl | keyed
    · exact ⟨rfl, rfl⟩
    · obtain ⟨entry, -, rfl⟩ := List.mem_map.mp keyed
      exact ⟨rfl, rfl⟩

/-- The keys of cases and of issues differ. -/
def RoutePlan.Distinct : RoutePlan → Prop
  | .cases matching => (Dict.keys matching.cases).Nodup
  | .issues unresolved => (Dict.keys unresolved.issues).Nodup
  | .direct _ | .route _ => True

/-- Issues are told apart by their words. -/
theorem DecisionIssue.value_injective : Function.Injective DecisionIssue.value := by
  intro issue other same
  cases issue <;> cases other <;> first | rfl | (revert same; decide)

/-- Within a route, the index or the case tells the edges apart. -/
theorem routeKeys_nodup {route : RoutePlan} (distinct : route.Distinct) :
    (route.keys source kind).Nodup := by
  cases route with
  | direct destination => exact List.nodup_singleton _
  | cases route =>
    refine List.Nodup.of_map EdgeKey.case ?_
    have cases : (RoutePlan.keys source kind (.cases route)).map EdgeKey.case =
        (Dict.keys route.cases).map some ++ [none] := by
      simp [RoutePlan.keys, Dict.keys, Function.comp_def]
    rw [cases]
    refine List.Nodup.append (distinct.map (Option.some_injective _)) (List.nodup_singleton _) ?_
    simp
  | route route =>
    refine List.Nodup.of_map EdgeKey.index ?_
    have indices : (RoutePlan.keys source kind (.route route)).map EdgeKey.index =
        (List.range route.entries.length).map some := by
      rw [RoutePlan.keys, List.map_map]
      refine List.ext_getElem (by simp) fun i _ _ => ?_
      simp
    rw [indices]
    exact List.nodup_range.map (Option.some_injective _)
  | issues route =>
    refine List.Nodup.of_map EdgeKey.case ?_
    have cases : (RoutePlan.keys source kind (.issues route)).map EdgeKey.case =
        none :: (Dict.keys route.issues).map (some ∘ DecisionIssue.value) := by
      simp [RoutePlan.keys, Dict.keys, Function.comp_def]
    rw [cases]
    refine List.nodup_cons.mpr ⟨by simp, distinct.map ?_⟩
    exact (Option.some_injective _).comp DecisionIssue.value_injective

/-- Every case has an edge. -/
theorem key_mem_cases {route : MatchRoutingPlan} {value : String} {destination : TransitionTargetPlan}
    (mem : (value, destination) ∈ route.cases) :
    (⟨source, target destination, kind, .cases, none, some value⟩ : EdgeKey) ∈
      RoutePlan.keys source kind (.cases route) :=
  List.mem_append_left _ (List.mem_map.mpr ⟨_, mem, rfl⟩)

/-- The default of cases has an edge. -/
theorem key_mem_default (route : MatchRoutingPlan) :
    (⟨source, target route.default, kind, .cases, none, none⟩ : EdgeKey) ∈
      RoutePlan.keys source kind (.cases route) :=
  List.mem_append_right _ (List.mem_singleton_self _)

/-- Every entry has an edge. -/
theorem key_mem_entries {route : ConditionalRoutingPlan} {i : ℕ} {entry : RouteEntryPlan}
    (at_ : route.entries[i]? = some entry) :
    (⟨source, target entry.target, kind, if kind = .review then .review else .route, some i, none⟩ :
        EdgeKey) ∈ RoutePlan.keys source kind (.route route) :=
  List.mem_map.mpr ⟨(entry, i), List.mem_zipIdx_iff_getElem?.mpr at_, rfl⟩

/-- Every choice by issues has an edge. -/
theorem key_mem_issues (route : UnresolvedRoutingPlan) (issues : List DecisionIssue) :
    (⟨source, target (route.select issues).1, kind, .review, none,
        (route.select issues).2.map DecisionIssue.value⟩ : EdgeKey) ∈
      RoutePlan.keys source kind (.issues route) := by
  rcases Compiler.select_cases route issues with default | ⟨issue, destination, mem, selected⟩
  · rw [default]
    exact List.mem_cons_self
  · rw [selected]
    exact List.mem_cons_of_mem _ (List.mem_map.mpr ⟨_, mem, rfl⟩)

/-- The keys of a transition are of its flow. -/
theorem transitionKeys_group (flow : FlowPlan) : ∀ key ∈ transitionKeys flow,
    key.source = flow.name ∧ key.kind = .transition := by
  unfold transitionKeys
  cases transitionRoute flow with
  | none => exact List.forall_mem_nil _
  | some route => exact routeKeys_group route

/-- The keys of a review are of its flow. -/
theorem reviewKeys_group (flow : FlowPlan) : ∀ key ∈ reviewKeys flow,
    key.source = flow.name ∧ key.kind = .review := by
  unfold reviewKeys
  cases reviewRoute flow with
  | none => exact List.forall_mem_nil _
  | some route => exact routeKeys_group route

/-- The keys of the start. -/
theorem startKeys_group (start : StartPlan) : ∀ key ∈ startKeys start,
    key.source = START ∧ key.kind = .start := by
  cases start with
  | flow name => exact List.forall_mem_singleton.mpr ⟨rfl, rfl⟩
  | route route => exact routeKeys_group (.route route)

/-- The calls of a flow are collections or retries of the flow. -/
theorem callKeys_group (flow : FlowPlan) : ∀ key ∈ callKeys flow,
    key.source = flow.name ∧ (key.kind = .collection ∨ key.kind = .retry) := by
  intro key mem
  rcases List.mem_append.mp mem with collection | retry
  · obtain ⟨step, -, own⟩ := List.mem_flatMap.mp collection
    obtain ⟨edge, made, rfl⟩ := List.mem_map.mp own
    unfold collectionEdges at made
    split at made
    · obtain ⟨callee, -, rfl⟩ := List.mem_map.mp made
      exact ⟨rfl, .inl rfl⟩
    · cases made
  · obtain ⟨name, -, rfl⟩ := Option.map_eq_some_iff.mp (Option.mem_toList.mp retry)
    exact ⟨rfl, .inr rfl⟩

/-- The edges of a flow start at the flow, and none of them is a start. -/
theorem flowKeys_group {flow : FlowPlan} {key : EdgeKey} (mem : key ∈ flowKeys flow) :
    key.source = flow.name ∧ key.kind ≠ .start := by
  rcases List.mem_append.mp mem with mem | mem
  · have group := transitionKeys_group flow key mem
    exact ⟨group.1, group.2 ▸ by decide⟩
  rcases List.mem_append.mp mem with mem | mem
  · have group := reviewKeys_group flow key mem
    exact ⟨group.1, group.2 ▸ by decide⟩
  · obtain ⟨source, kind | kind⟩ := callKeys_group flow key mem
    · exact ⟨source, kind ▸ by decide⟩
    · exact ⟨source, kind ▸ by decide⟩

/-- Keys of other kinds do not count. -/
theorem count_eq_zero_of_kind {keys : List EdgeKey} {key : EdgeKey}
    (others : ∀ other ∈ keys, other.kind ≠ key.kind) : keys.count key = 0 :=
  List.count_eq_zero.mpr fun mem => others key mem rfl

/-- Only the keys of the start count for the key of a start. -/
theorem count_start (plan : WorkflowPlan) {key : EdgeKey} (kind : key.kind = .start) :
    (workflowKeys plan).count key = (startKeys plan.start).count key := by
  have flows : (plan.flows.flatMap flowKeys).count key = 0 := by
    refine count_eq_zero_of_kind fun other mem => ?_
    obtain ⟨flow, -, own⟩ := List.mem_flatMap.mp mem
    rw [kind]
    exact (flowKeys_group own).2
  rw [workflowKeys, List.count_append, flows, Nat.add_zero]

/-- Only the keys of its own flow count for another key. -/
theorem count_flow {plan : WorkflowPlan} {flow : FlowPlan} (known : flow ∈ plan.flows)
    {key : EdgeKey} (source : key.source = flow.name) (kind : key.kind ≠ .start) :
    (workflowKeys plan).count key = (flowKeys flow).count key := by
  have start : (startKeys plan.start).count key = 0 :=
    count_eq_zero_of_kind fun other mem => (startKeys_group _ other mem).2 ▸ Ne.symm kind
  have only : ∀ other ∈ plan.flows, ∀ own ∈ flowKeys other, (own == key) = true →
      other.name = flow.name := by
    intro other _ own mem same
    rw [← source, ← beq_iff_eq.mp same]
    exact (flowKeys_group mem).1.symm
  have flows : (plan.flows.flatMap flowKeys).count key = (flowKeys flow).count key :=
    Tally.countP_flatMap plan.nodup known only
  rw [workflowKeys, List.count_append, start, Nat.zero_add]
  exact flows

/-- The transitions of a flow are among its own edges only. -/
theorem count_transition {plan : WorkflowPlan} {flow : FlowPlan} (known : flow ∈ plan.flows)
    {key : EdgeKey} (source : key.source = flow.name) (kind : key.kind = .transition) :
    (workflowKeys plan).count key = (transitionKeys flow).count key := by
  have others : (reviewKeys flow ++ callKeys flow).count key = 0 := by
    refine count_eq_zero_of_kind fun other mem => ?_
    rw [kind]
    rcases List.mem_append.mp mem with mem | mem
    · rw [(reviewKeys_group flow other mem).2]
      decide
    · rcases (callKeys_group flow other mem).2 with own | own
      · rw [own]
        decide
      · rw [own]
        decide
  rw [count_flow known source (kind ▸ by decide), flowKeys, List.count_append, others, Nat.add_zero]

/-- The reviews of a flow are among its own edges only. -/
theorem count_review {plan : WorkflowPlan} {flow : FlowPlan} (known : flow ∈ plan.flows)
    {key : EdgeKey} (source : key.source = flow.name) (kind : key.kind = .review) :
    (workflowKeys plan).count key = (reviewKeys flow).count key := by
  have transitions : (transitionKeys flow).count key = 0 := by
    refine count_eq_zero_of_kind fun other mem => ?_
    rw [kind, (transitionKeys_group flow other mem).2]
    decide
  have calls : (callKeys flow).count key = 0 := by
    refine count_eq_zero_of_kind fun other mem => ?_
    rw [kind]
    rcases (callKeys_group flow other mem).2 with own | own
    · rw [own]
      decide
    · rw [own]
      decide
  rw [count_flow known source (kind ▸ by decide), flowKeys, List.count_append, List.count_append,
    transitions, calls, Nat.zero_add, Nat.add_zero]

end Counts

/-! ## Recorded boundaries -/

section Boundaries

variable {plan : WorkflowPlan} {flow : FlowPlan} {issues : List DecisionIssue} {context : Json}
  {selected : Selected}

/-- A chosen review has one edge. -/
theorem review_single (keyed : Keyed plan) (known : flow ∈ plan.flows)
    (routed : flow.callable = false)
    (chosen : ReviewChosen issues flow.onUnresolved selected) :
    (reviewKeys flow).count (transitionKey (selected.transition flow.name .needsReview)) = 1 := by
  unfold reviewKeys reviewRoute
  rw [routed, if_neg Bool.false_ne_true, Option.elim_some]
  refine List.count_eq_one_of_mem (routeKeys_nodup ?_) ?_
  · cases review : flow.onUnresolved with
    | none => trivial
    | some route =>
      cases route with
      | direct destination => trivial
      | issues route => exact keyed.issues flow known route review
      | route route => trivial
  · generalize flow.onUnresolved = route at chosen
    cases chosen with
    | absent => exact List.mem_singleton_self _
    | direct => exact List.mem_singleton_self _
    | issues => exact key_mem_issues _ issues
    | route at_ => exact key_mem_entries at_

/-- A chosen transition has one edge. -/
theorem transition_single {status : Status} (keyed : Keyed plan) (known : flow ∈ plan.flows)
    (completed : status ≠ .needsReview) (chosen : TransitionChosen context flow.transition selected) :
    (transitionKeys flow).count (transitionKey (selected.transition flow.name status)) = 1 := by
  have reason : (selected.transition flow.name status).reason = .completed := if_neg completed
  unfold transitionKeys transitionRoute
  cases transition : flow.transition with
  | none =>
    rw [transition] at chosen
    cases chosen
  | some route =>
    rw [transition] at chosen
    rw [Option.map_some, Option.elim_some]
    -- the keys of one route differ, and the chosen target is among them
    refine List.count_eq_one_of_mem (routeKeys_nodup ?_) ?_
    · cases route with
      | direct destination => trivial
      | cases route => exact keyed.cases flow known route transition
      | route route => trivial
    · have key : transitionKey (selected.transition flow.name status) =
          ⟨flow.name, target selected.target, .transition, edgeRoute selected.kind, selected.index,
            selected.case⟩ := by
        unfold transitionKey
        rw [reason]
        rfl
      rw [key]
      cases chosen with
      | direct => exact List.mem_singleton_self _
      | route at_ => exact key_mem_entries at_
      | @cases route value _ bound chosen =>
        unfold MatchRoutingPlan.selectCase at chosen
        split at chosen
        · obtain rfl := Except.ok.inj chosen
          exact key_mem_default route
        · split at chosen
          · rename_i found
            obtain rfl := Except.ok.inj chosen
            exact key_mem_cases (Dict.mem_of_mem_ofList (Dict.mem_of_lookup found))
          · obtain rfl := Except.ok.inj chosen
            exact key_mem_default route
        · cases chosen

/-- A transition that was taken has one edge. -/
theorem taken_single {transition : TransitionRecord} (keyed : Keyed plan)
    (taken : Taken plan transition) :
    (workflowKeys plan).count (transitionKey transition) = 1 := by
  obtain ⟨flow, known, routed, status, issues, context, selected, chosen, rfl⟩ := taken
  by_cases review : status = .needsReview
  · subst review
    rw [count_review known rfl rfl]
    exact review_single keyed known routed (chosen.review rfl)
  · have kind : (transitionKey (selected.transition flow.name status)).kind = .transition := by
      unfold transitionKey Selected.transition
      rw [if_neg review]
    rw [count_transition known rfl kind]
    exact transition_single keyed known review (chosen.transition review)

/-- The start that was taken has one edge. -/
theorem started_single {start : StartRecord} (started : Started plan start) :
    (workflowKeys plan).count (startKey start) = 1 := by
  rw [count_start plan rfl]
  rcases started with ⟨direct, index⟩ | ⟨route, i, entry, routed, at_, flow, index⟩
  · rw [direct]
    refine List.count_eq_one_of_mem (List.nodup_singleton _) (List.mem_singleton.mpr ?_)
    rw [startKey, index]
    rfl
  · rw [routed]
    have distinct : RoutePlan.Distinct (.route route) := trivial
    refine List.count_eq_one_of_mem (routeKeys_nodup distinct) ?_
    have key : startKey start = ⟨START, target entry.target, .start, .route, some i, none⟩ := by
      rw [startKey, index, target, flow]
      rfl
    rw [key]
    exact key_mem_entries at_

end Boundaries

/-! ## The graph covers the runtime -/

section Runs

variable {r : WorkflowRunner} {envelope : AcceptedEnvelope} {texts : LabelTexts}
    {graph : WorkflowGraph}

/-- A call edge is there when its key is. -/
theorem any_key {edges : List GraphEdge} {key : EdgeKey} (mem : key ∈ edges.map GraphEdge.key) :
    (edges.any fun edge => edge.key = key) = true := by
  obtain ⟨edge, among, rfl⟩ := List.mem_map.mp mem
  exact List.any_eq_true.mpr ⟨edge, among, decide_eq_true rfl⟩

/-- Every call that the plan allows is an edge. -/
theorem covers_callEdges {plan : WorkflowPlan} (made : workflowGraph texts plan = .ok graph) :
    Covers plan (callEdges graph.edges) where
  items flow known step mem items flows maxItems kind name called := by
    have own : (⟨flow.name, name, .collection, .call, none, none⟩ : EdgeKey) ∈
        (collectionEdges flow step).map GraphEdge.key := by
      unfold collectionEdges
      rw [kind]
      exact List.mem_map.mpr ⟨_, List.mem_map_of_mem called, rfl⟩
    refine any_key ?_
    rw [workflowGraph_keys made]
    refine List.mem_append_right _ (List.mem_flatMap.mpr ⟨flow, known, ?_⟩)
    exact List.mem_append_right _ (List.mem_append_right _ (List.mem_append_left _
      (List.mem_flatMap.mpr ⟨step, mem, own⟩)))
  retries flow known rep repeats name retries := by
    refine any_key ?_
    rw [workflowGraph_keys made]
    refine List.mem_append_right _ (List.mem_flatMap.mpr ⟨flow, known, ?_⟩)
    refine List.mem_append_right _ (List.mem_append_right _ (List.mem_append_right _ ?_))
    rw [repeats, Option.bind_some, retries]
    exact List.mem_singleton_self _

/-- A graph covers a run: the recorded start and every recorded transition are exactly one edge, and a run
whose collection items and retry flows are only called along call edges of the flow that calls them is the
run. -/
structure Covered (r : WorkflowRunner) (envelope : AcceptedEnvelope) (target : RunTarget)
    (graph : WorkflowGraph) : Prop where
  start : ∀ start, (run r envelope target).1.start = some start →
    edgeCount graph.edges (startKey start) = 1
  transitions : ∀ transition ∈ (run r envelope target).1.transitions,
    edgeCount graph.edges (transitionKey transition) = 1
  calls : ∀ other : Engine, runTraced (callEdges graph.edges) other r envelope target =
    run r envelope target

/-- The graph of a workflow covers every run of it. -/
theorem covered_of_made (keyed : Keyed r.plan) (made : workflowGraph texts r.plan = .ok graph)
    (target : RunTarget) : Covered r envelope target graph := by
  obtain ⟨started, taken⟩ := @run_recorded r envelope target
  refine ⟨fun start recorded => ?_, fun transition mem => ?_,
    fun other => runTraced_eq (covers_callEdges made) other target⟩
  · rw [edgeCount_eq, workflowGraph_keys made]
    exact started_single (started start recorded)
  · rw [edgeCount_eq, workflowGraph_keys made]
    exact taken_single keyed (taken transition mem)

/-- A workflow has a graph that covers a run exactly when the operands that the labels of the graph show can be
written. -/
theorem workflowGraph_covers_iff (texts : LabelTexts) (r : WorkflowRunner)
    (envelope : AcceptedEnvelope)
    (target : RunTarget) (keyed : Keyed r.plan) :
    (∃ graph, workflowGraph texts r.plan = .ok graph ∧ Covered r envelope target graph) ↔
      Labelled r.plan := by
  rw [← @workflowGraph_succeeds texts]
  exact ⟨fun ⟨graph, made, _⟩ => ⟨graph, made⟩,
    fun ⟨graph, made⟩ => ⟨graph, made, covered_of_made keyed made target⟩⟩

end Runs

/-! ## A workflow with every form of call -/

/-- A collection of one item. -/
def batchKind : StepKind :=
  .flowCollection (.literal (.arr
      [.obj [("id", .str "a"), ("flow", .str "item"), ("input", .obj [])]]))
    ["item"] 4

/-- The collection calls a flow. -/
theorem batch_calls (items : BindingPlan) (flows : List String) (maxItems : ℕ)
    (kind : batchKind = .flowCollection items flows maxItems) : flows ≠ [] := by
  cases kind
  exact List.cons_ne_nil _ _

/-- The step of the collection. -/
def batchStep : StepPlan where
  name := "batch"
  kind := batchKind
  calls := batch_calls

/-- Adjust once, then give up. -/
def adjustRepeat : RepeatPlan where
  maxAttempts := 2
  two_le := refineRepeat.two_le
  untilCondition := .leaf { source := .literal .null, operator := .present, operand := .bool true }
  retryFlow := some "adjust"

/-- The two steps have different names. -/
theorem triage_steps : ([exampleStep, batchStep].map StepPlan.name).Nodup := by decide

/-- A routed flow may lead somewhere. -/
theorem not_callable {transition : Option TransitionPlan} {review : Option ReviewRoutePlan}
    (callable : false = true) : transition = none ∧ review = none :=
  absurd callable Bool.false_ne_true

/-- A callable flow leads nowhere. -/
theorem callable_bare (_ : true = true) :
    (none : Option TransitionPlan) = none ∧ (none : Option ReviewRoutePlan) = none :=
  ⟨rfl, rfl⟩

/-- A flow with cases, a review and a repeat. -/
def triageFlow : FlowPlan where
  name := "triage"
  steps := [exampleStep, batchStep]
  transition := some (.cases
    { binding := .literal (.str "open"), cases := [("open", { flow := some "close" })],
      default := { outcome := some .completed } })
  repeatPlan := some adjustRepeat
  nodup := triage_steps
  called := not_callable

/-- A callable flow. -/
def calledFlow (name : String) : FlowPlan where
  name := name
  steps := [exampleStep]
  callable := true
  nodup := exampleFlow.nodup
  called := callable_bare

/-- The last flow. -/
def closeFlow : FlowPlan where
  name := "close"
  steps := [exampleStep]
  transition := some (.direct { outcome := some .completed })
  nodup := exampleFlow.nodup
  called := refineFlow.called

/-- The flows have different names. -/
theorem triage_flows :
    ([triageFlow, calledFlow "item", calledFlow "adjust", closeFlow].map FlowPlan.name).Nodup := by
    decide

/-- A workflow with every kind of edge. -/
def triagePlan : WorkflowPlan where
  name := "example"
  revision := "1"
  start := .route { entries := [{ target := { flow := some "triage" }, condition := none }] }
  flows := [triageFlow, calledFlow "item", calledFlow "adjust", closeFlow]
  nodup := triage_flows

/-- A runner of that workflow. -/
def triageRunner : WorkflowRunner := { exampleRunner with plan := triagePlan }

/-- The names and cases of the workflow are unique. -/
theorem triage_keyed : Keyed triageRunner.plan where
  cases := by
    intro flow mem route transition
    rcases List.mem_cons.mp mem with rfl | others
    · cases transition
      exact List.nodup_singleton _
    · simp only [List.mem_cons, List.not_mem_nil, or_false] at others
      rcases others with rfl | rfl | rfl <;> cases transition
  issues := by
    intro flow mem route review
    simp only [triageRunner, triagePlan, List.mem_cons, List.not_mem_nil, or_false] at mem
    rcases mem with rfl | rfl | rfl | rfl <;> cases review

/-- Ascii texts. -/
def plainLabels : LabelTexts where
  isAlnum := Char.isAlphanum
  isPrintable c := 32 ≤ c.toNat && c.toNat < 127
  floatText := fractionText

/-- The only operand of the workflow is the flag of its repeat. -/
theorem triage_flows_labelled : ∀ flow ∈ triagePlan.flows, AllWrite (flowConditions flow) := by
  have own : AllWrite (flowConditions triageFlow) := by
    have only : flowConditions triageFlow = [adjustRepeat.untilCondition] := rfl
    rw [only]
    exact List.forall_mem_singleton.mpr nofun
  have none (flow : FlowPlan) (bare : flowConditions flow = []) : AllWrite (flowConditions flow) := by
    rw [bare]
    exact List.forall_mem_nil _
  have flows : triagePlan.flows = [triageFlow, calledFlow "item", calledFlow "adjust", closeFlow] :=
    rfl
  rw [flows]
  simp only [List.forall_mem_cons, List.not_mem_nil, false_imp_iff, implies_true, and_true]
  exact ⟨own, none _ rfl, none _ rfl, none _ rfl⟩

/-- Both boundaries of the run, and its calls of an item and of a retry flow, are in the graph. -/
theorem triage_covered :
    (run triageRunner exampleEnvelope .workflow).1.start =
    some { flow := "triage", routeIndex := some 0 } ∧
    (run triageRunner exampleEnvelope .workflow).1.transitions.length = 2 ∧
    ∃ graph, workflowGraph plainLabels triageRunner.plan = .ok graph ∧
      Covered triageRunner exampleEnvelope .workflow graph :=
  ⟨by decide +kernel, by decide +kernel,
    (workflowGraph_covers_iff plainLabels triageRunner exampleEnvelope .workflow triage_keyed).mpr
      ⟨nofun, triage_flows_labelled⟩⟩

/-! ## A workflow without a graph -/

/-- The size of the payload is compared with an integer that has too many digits. -/
def hugeCondition : AuthoredCondition :=
  .leaf { source := .pointer ⟨"/payload/size", by decide⟩, operator := .gt (.int (10 ^ MAX_INT_DIGITS)) }

/-- The condition as it is compiled. -/
def hugeLeaf : LeafConditionPlan where
  source := .pointer "/payload/size" none
  operator := .gt
  operand := .int (10 ^ MAX_INT_DIGITS)

/-- Both entries of the start lead to the triage. -/
def hugePlan : WorkflowPlan :=
  { triagePlan with
    start := .route { entries := [
      { target := { flow := some "triage" }, condition := some (.leaf hugeLeaf) },
      { target := { flow := some "triage" }, condition := none }] } }

/-- The workflow with an operand that cannot be written. -/
def hugeRunner : WorkflowRunner := { triageRunner with plan := hugePlan }

/-- The label of the condition cannot be written. -/
theorem hugeLeaf_unlabelled : ¬ LabelWrites (.leaf hugeLeaf) := by
  intro write
  have short : shortInt (10 ^ MAX_INT_DIGITS) = true :=
    write (.int (10 ^ MAX_INT_DIGITS)) (List.mem_singleton_self _)
  rw [shortInt_power] at short
  cases short

/-- The workflow is accepted and its run records a start, but it has no graph. -/
theorem huge_operand_no_graph :
    (∀ parse casefold, compileCondition parse casefold hugeCondition = .ok (.leaf hugeLeaf)) ∧
    validateRepeats hugePlan (fun _ => none) = .ok [("adjust", "triage")] ∧
    validateGraph hugePlan [("adjust", "triage")] = .ok (graphOf hugePlan [("adjust", "triage")]) ∧
    Keyed hugePlan ∧
    (run hugeRunner exampleEnvelope .workflow).1.start = some { flow := "triage", routeIndex := some 1 } ∧
    ∀ texts graph, workflowGraph texts hugePlan ≠ .ok graph := by
  refine ⟨fun _ _ => rfl, rfl, rfl, ⟨triage_keyed.cases, triage_keyed.issues⟩, by decide +kernel,
    fun texts graph made => hugeLeaf_unlabelled ?_⟩
  exact (workflowGraph_succeeds.mp ⟨graph, made⟩).1 _ List.mem_cons_self

end Foliqant.Application
