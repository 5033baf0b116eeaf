import Mathlib.Data.String.Basic
import Foliqant.Decisions.Contracts

/-!
# What the decision rules accept

An answer agrees with its answerability, and the relations between requests name declared requests
and predicates, order the requests without a cycle and never exclude a request from its prerequisite.
-/

namespace Foliqant.Decisions

open Foliqant.Core

/-! ## Answerability -/

/-- An answer with a substance: an unknown predicate has none. -/
def Answer.answered : Answer → Bool
  | .predicate value => value != .unknown
  | answer => answer.present

/-- The answer agrees with its answerability. -/
structure Consistent (answerability : Answerability) (answer : Answer) : Prop where
  explained : answerability.status ≠ .answerable → answerability.issues.1 ≠ []
  partialTypes : answerability.status = .partiallyAnswerable →
    answer.type = .multiselect ∨ answer.type = .requestUnits
  substance : answer.answered = true ↔
    answerability.status = .answerable ∨ answerability.status = .partiallyAnswerable

/-- The problem of a first rule and of the others. -/
theorem problemsOf_cons {holds : Bool} {text : String} {rules : List (Bool × String)} :
    problemsOf ((holds, text) :: rules) = [] ↔ holds = false ∧ problemsOf rules = [] := by
  rw [problemsOf_eq_nil, problemsOf_eq_nil, List.forall_mem_cons]

/-- No rules, no problems. -/
@[simp] theorem problemsOf_nil : problemsOf [] = [] := rfl

/-- Answers that fit their answerability. -/
theorem validateAnswerability_eq_nil {place : String} {answerability : Answerability}
    {answer : Answer} :
    validateAnswerability place answer.type answerability answer.present answer.predicateValue = [] ↔
      Consistent answerability answer := by
  obtain ⟨status, issues⟩ := answerability
  -- Both sides are decided by the status, the type and whether there is an answer.
  constructor
  · intro h
    cases answer <;> cases status <;>
      simp_all [validateAnswerability, problemsOf_cons, Answer.type, Answer.present,
        Answer.predicateValue] <;>
      constructor <;> simp_all [Answer.type, Answer.answered, Answer.present]
  · rintro ⟨explained, types, substance⟩
    cases answer <;> cases status <;>
      simp_all [validateAnswerability, problemsOf_cons, Answer.type, Answer.present,
        Answer.predicateValue, Answer.answered]

/-! ## Relations -/

section Relations

open Relation

/-- The nodes after a node. -/
theorem mem_successors {edges : List (Id × Id)} {node next : Id} :
    next ∈ successors edges node ↔ (node, next) ∈ edges := by
  simp [successors]

/-- The nodes of a graph. -/
def endpoints (edges : List (Id × Id)) : Finset Id :=
  (edges.map Prod.fst ++ edges.map Prod.snd).toFinset

/-- The ends of edges lead to ends of edges. -/
theorem endpoints_closed {edges : List (Id × Id)} :
    ∀ node ∈ endpoints edges, ∀ next ∈ successors edges node, next ∈ endpoints edges := by
  intro node _ next edge
  rw [mem_successors] at edge
  exact List.mem_toFinset.mpr (List.mem_append_right _ (List.mem_map.mpr ⟨(node, next), edge, rfl⟩))

/-- The starts of edges are ends of edges. -/
theorem starts_endpoints {edges : List (Id × Id)} :
    ∀ node ∈ edges.map Prod.fst, node ∈ endpoints edges :=
  fun _ mem => List.mem_toFinset.mpr (List.mem_append_left _ mem)

/-- There are few ends of edges. -/
theorem card_endpoints_lt (edges : List (Id × Id)) :
    (endpoints edges).card < 2 * edges.length + 1 := by
  have bound := List.toFinset_card_le (edges.map Prod.fst ++ edges.map Prod.snd)
  rw [List.length_append, List.length_map, List.length_map] at bound
  unfold endpoints
  omega

/-- The search for cycles finds one exactly when there is one. -/
theorem hasDirectedCycle_eq_false {edges : List (Id × Id)} :
    hasDirectedCycle edges = false ↔
      ∀ node, ¬ TransGen (fun first next => (first, next) ∈ edges) node node := by
  have same : (fun first next => next ∈ successors edges first) =
      fun first next => (first, next) ∈ edges :=
    funext fun first => funext fun next => propext mem_successors
  unfold hasDirectedCycle
  cases searched : DepthFirst.visitAll (successors edges) (fun _ _ => .ok ()) ()
      (2 * edges.length + 1) [] ([] : List (Id × Unit)) (edges.map Prod.fst) with
  | ok visited =>
    refine iff_of_true rfl fun node cycle => ?_
    have extends_ := DepthFirst.visitAll_extends .nil searched
    obtain ⟨next, edge, -⟩ := TransGen.head'_iff.mp cycle
    have mem := extends_.visited node (List.mem_map.mpr ⟨(node, next), edge, rfl⟩)
    rw [← same] at cycle
    exact extends_.topological.acyclic mem cycle
  | error e =>
    refine iff_of_false Bool.true_eq_false.mp fun acyclic => ?_
    obtain ⟨node, cycle⟩ := DepthFirst.visitAll_error endpoints_closed (fun _ _ => ⟨(), rfl⟩)
      starts_endpoints (card_endpoints_lt edges) searched
    rw [same] at cycle
    exact acyclic node cycle

/-- The targets of edges lead to targets of edges. -/
theorem targets_closed {edges : List (Id × Id)} {start : Id} :
    ∀ node ∈ start :: edges.map Prod.snd, ∀ next ∈ successors edges node,
      next ∈ start :: edges.map Prod.snd := by
  intro node _ next edge
  rw [mem_successors] at edge
  exact List.mem_cons_of_mem _ (List.mem_map.mpr ⟨(node, next), edge, rfl⟩)

/-- The start is among the start and the targets. -/
theorem start_targets {edges : List (Id × Id)} {start : Id} :
    ∀ node ∈ [start], node ∈ start :: edges.map Prod.snd :=
  fun _ mem => List.mem_cons.mpr (.inl (List.mem_singleton.mp mem))

/-- The search finds the paths that there are. -/
theorem hasPath_iff {edges : List (Id × Id)} {start stop : Id} :
    hasPath edges start stop = true ↔
      ReflTransGen (fun first next => (first, next) ∈ edges) start stop := by
  have same : (fun first next => next ∈ successors edges first) =
      fun first next => (first, next) ∈ edges :=
    funext fun first => funext fun next => propext mem_successors
  have reachable : stop ∈ _ ↔ _ := Digraph.mem_reachable (@targets_closed edges start) start_targets
  rw [hasPath, decide_eq_true_iff, reachable, Digraph.Reaches, same]
  simp

/-- The requests that a relation names. -/
def RequestRelation.requests : RequestRelation → List Id
  | .conditionalOn request _ _ => [request]
  | .requires request required => [request, required]
  | .precedes first last => [first, last]
  | .mutuallyExclusive ids => ids.1.1

/-- The predicate that a relation depends on. -/
def RequestRelation.predicate : RequestRelation → Option Id
  | .conditionalOn _ predicate _ => some predicate
  | _ => none

/-- Relations between declared requests that can all be respected. -/
structure RelationsFit (unitIds predicateIds : List Id) (relations : List RequestRelation) :
    Prop where
  requests : ∀ relation ∈ relations, ∀ id ∈ relation.requests, id ∈ unitIds
  predicates : ∀ relation ∈ relations, ∀ id ∈ relation.predicate, id ∈ predicateIds
  distinct : (relations.map RequestRelation.key).Nodup
  acyclic : ∀ id, ¬ TransGen
    (fun first next => ∃ relation ∈ relations, relation.directed = some (first, next)) id id
  agree : ∀ first ∈ relations, ∀ second ∈ relations, ∀ place value other,
    first.condition = some (place, value) → second.condition = some (place, other) → value = other
  independent : ∀ relation ∈ relations, ∀ group ∈ relation.exclusiveGroup,
    ∀ first ∈ group, ∀ second ∈ group, first ≠ second → ¬ ReflTransGen
      (fun first next => ∃ relation ∈ relations, relation.requirement = some (first, next)) first
        second

variable {place : String} {unitIds predicateIds : List Id} {relations : List RequestRelation}

/-- A relation alone: its references, and no request before itself. -/
theorem RequestRelation.problems_eq_nil {relation : RequestRelation} :
    relation.problems place unitIds predicateIds = [] ↔
      (∀ id ∈ relation.requests, id ∈ unitIds) ∧ (∀ id ∈ relation.predicate, id ∈ predicateIds) ∧
        ∀ id, relation.directed ≠ some (id, id) := by
  cases relation with
  | conditionalOn request predicate value =>
    simp [problems, problemsOf_cons, requests, RequestRelation.predicate, directed]
  | requires request required =>
    simp only [problems, problemsOf_cons, requests, RequestRelation.predicate, directed]
    simp
    grind
  | precedes first last =>
    simp only [problems, problemsOf_cons, requests, RequestRelation.predicate, directed]
    simp
    grind
  | mutuallyExclusive ids =>
    simp [problems, problemsOf_cons, requests, RequestRelation.predicate, directed]

/-- The pairs of relations. -/
theorem mem_filterMap_pair {f : RequestRelation → Option (Id × Id)} :
    (fun first next => (first, next) ∈ relations.filterMap f) =
      fun first next => ∃ relation ∈ relations, f relation = some (first, next) :=
  funext fun _ => funext fun _ => propext List.mem_filterMap

/-- No two conditions of a request disagree. -/
theorem conditions_agree :
    ((relations.filterMap RequestRelation.condition).any fun first =>
        (relations.filterMap RequestRelation.condition).any fun second =>
          first.1 == second.1 && first.2 != second.2) = false ↔
      ∀ first ∈ relations, ∀ second ∈ relations, ∀ place value other,
        first.condition = some (place, value) → second.condition = some (place, other) →
          value = other := by
  rw [List.any_eq_false]
  constructor
  · intro h first memFirst second memSecond place value other condition condition'
    have := h (place, value) (List.mem_filterMap.mpr ⟨first, memFirst, condition⟩)
    by_contra differs
    refine this (List.any_eq_true.mpr ⟨(place, other),
      List.mem_filterMap.mpr ⟨second, memSecond, condition'⟩, ?_⟩)
    simp [differs]
  · rintro h ⟨place, value⟩ mem conflict
    obtain ⟨first, memFirst, condition⟩ := List.mem_filterMap.mp mem
    obtain ⟨⟨place', other⟩, mem', differs⟩ := List.any_eq_true.mp conflict
    obtain ⟨second, memSecond, condition'⟩ := List.mem_filterMap.mp mem'
    simp only [Bool.and_eq_true, beq_iff_eq, bne_iff_ne] at differs
    obtain ⟨rfl, differs⟩ := differs
    exact differs (h first memFirst second memSecond place value other condition condition')

/-- No two requests of a group depend on each other. -/
theorem groups_independent :
    ((relations.filterMap RequestRelation.exclusiveGroup).any fun group =>
        group.any fun first => group.any fun second => decide (first.1 < second.1) &&
          (hasPath (relations.filterMap RequestRelation.requirement) first second ||
            hasPath (relations.filterMap RequestRelation.requirement) second first)) = false ↔
      ∀ relation ∈ relations, ∀ group ∈ relation.exclusiveGroup,
        ∀ first ∈ group, ∀ second ∈ group, first ≠ second → ¬ ReflTransGen
          (fun first next => ∃ relation ∈ relations, relation.requirement = some (first, next))
          first second := by
  rw [← mem_filterMap_pair, List.any_eq_false]
  constructor
  · intro h relation mem group grouped first memFirst second memSecond differs path
    have free := h group (List.mem_filterMap.mpr ⟨relation, mem, grouped⟩)
    have path := hasPath_iff.mpr path
    -- The check compares each pair once, in the order of the identifiers.
    rcases lt_or_gt_of_ne (Subtype.coe_ne_coe.mpr differs) with order | order
    · exact free (List.any_eq_true.mpr ⟨first, memFirst,
        List.any_eq_true.mpr ⟨second, memSecond, by simp [order, path]⟩⟩)
    · exact free (List.any_eq_true.mpr ⟨second, memSecond,
        List.any_eq_true.mpr ⟨first, memFirst, by simp [order, path]⟩⟩)
  · intro h group mem conflict
    obtain ⟨relation, mem, grouped⟩ := List.mem_filterMap.mp mem
    obtain ⟨first, memFirst, conflict⟩ := List.any_eq_true.mp conflict
    obtain ⟨second, memSecond, conflict⟩ := List.any_eq_true.mp conflict
    rw [Bool.and_eq_true, decide_eq_true_iff, Bool.or_eq_true, hasPath_iff, hasPath_iff] at conflict
    obtain ⟨order, conflict⟩ := conflict
    have differs : first ≠ second := fun same => absurd order (by rw [same]; exact lt_irrefl _)
    rcases conflict with path | path
    · exact h relation mem group grouped first memFirst second memSecond differs path
    · exact h relation mem group grouped second memSecond first memFirst differs.symm path

/-- The checks of the relations accept exactly the relations that fit. -/
theorem validateRequestRelations_eq_nil :
    validateRequestRelations place unitIds predicateIds relations = [] ↔
      RelationsFit unitIds predicateIds relations := by
  unfold validateRequestRelations
  rw [List.append_eq_nil_iff, List.flatMap_eq_nil_iff, problemsOf_cons, problemsOf_cons,
    problemsOf_cons, problemsOf_cons, Bool.not_eq_false', decide_eq_true_iff,
    hasDirectedCycle_eq_false, mem_filterMap_pair, conditions_agree, groups_independent]
  constructor
  · rintro ⟨alone, distinct, acyclic, agree, independent, -⟩
    have alone := fun relation mem => RequestRelation.problems_eq_nil.mp (alone relation mem)
    exact ⟨fun relation mem => (alone relation mem).1, fun relation mem => (alone relation mem).2.1,
      distinct, acyclic, agree, independent⟩
  · intro fits
    refine ⟨fun relation mem => RequestRelation.problems_eq_nil.mpr ⟨fits.requests relation mem,
      fits.predicates relation mem, fun id loop => ?_⟩, fits.distinct, fits.acyclic, fits.agree,
      fits.independent, rfl⟩
    exact fits.acyclic id (.single ⟨relation, mem, loop⟩)

end Relations

end Foliqant.Decisions
