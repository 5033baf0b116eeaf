import Foliqant.Decisions.ContractsSpec

/-!
# What the checks of the relations report

Each problem is reported exactly when the relations between the requests have it, and the two graph
searches behind the reports end on every graph.
-/

namespace Foliqant.Decisions

open Foliqant.Core Relation

variable {place code : String} {unitIds predicateIds : List Id} {relations : List RequestRelation}

/-! ## Equal relations -/

/-- Equal relations; the order of the members of a group does not matter. -/
inductive RequestRelation.Alike : RequestRelation → RequestRelation → Prop
  | refl (relation : RequestRelation) : Alike relation relation
  | reordered {ids others : { ids : UniqueList Id 64 // 2 ≤ ids.1.length }}
      (order : ids.1.1.Perm others.1.1) : Alike (.mutuallyExclusive ids) (.mutuallyExclusive others)

/-- Sorting forgets the order of the names and nothing else. -/
theorem mergeSort_inj {names others : List String} :
    names.mergeSort = others.mergeSort ↔ names.Perm others := by
  have perm := fun names : List String => List.mergeSort_perm names fun a b => decide (a ≤ b)
  constructor
  · intro same
    exact (perm names).symm.trans (same ▸ perm others)
  · intro order
    have sorted (names : List String) : names.mergeSort.Pairwise (· ≤ ·) := by
      have pairwise := @List.pairwise_mergeSort _ (fun a b : String => decide (a ≤ b))
        (fun a b c below above => by
          rw [decide_eq_true_eq] at below above ⊢
          exact le_trans below above)
        (fun a b => by
          rw [Bool.or_eq_true, decide_eq_true_eq, decide_eq_true_eq]
          exact le_total a b) names
      simpa only [decide_eq_true_eq] using pairwise
    exact List.Perm.eq_of_pairwise (fun _ _ _ _ => le_antisymm) (sorted names) (sorted others)
      ((perm names).trans (order.trans (perm others).symm))

/-- Required values are told apart. -/
theorem requiredValue_inj {value other : Bool} :
    requiredValue value = requiredValue other ↔ value = other := by
  cases value <;> cases other <;> simp [requiredValue]

/-- The keys tell relations apart that are not equal up to the order of a group. -/
theorem RequestRelation.key_eq_key {first second : RequestRelation} :
    first.key = second.key ↔ first.Alike second := by
  constructor
  · intro same
    -- The type of a relation is the head of its key.
    cases first with
    | conditionalOn request predicate value =>
      cases second with
      | conditionalOn request' predicate' value' =>
        simp only [key, List.cons.injEq, true_and, and_true, Subtype.val_inj,
          requiredValue_inj] at same
        obtain ⟨rfl, rfl, rfl⟩ := same
        exact .refl _
      | _ => simp [key] at same
    | requires request required =>
      cases second with
      | requires request' required' =>
        simp only [key, List.cons.injEq, true_and, and_true, Subtype.val_inj] at same
        obtain ⟨rfl, rfl⟩ := same
        exact .refl _
      | _ => simp [key] at same
    | precedes before after =>
      cases second with
      | precedes before' after' =>
        simp only [key, List.cons.injEq, true_and, and_true, Subtype.val_inj] at same
        obtain ⟨rfl, rfl⟩ := same
        exact .refl _
      | _ => simp [key] at same
    | mutuallyExclusive ids =>
      cases second with
      | mutuallyExclusive others =>
        simp only [key, List.cons.injEq, true_and, mergeSort_inj] at same
        exact .reordered ((List.map_perm_map_iff Subtype.val_injective).mp same)
      | _ => simp [key] at same
  · rintro (_ | order)
    · rfl
    · rw [key, key, mergeSort_inj.mpr (order.map _)]

/-- Two relations of one key. -/
theorem keys_repeat : ¬ (relations.map RequestRelation.key).Nodup ↔
    ∃ i j, ∃ order : i < j, ∃ bound : j < relations.length,
      (relations.get ⟨i, order.trans bound⟩).Alike relations[j] := by
  rw [List.Nodup, List.pairwise_map, List.pairwise_iff_getElem]
  simp only [ne_eq, RequestRelation.key_eq_key]
  push Not
  constructor
  · rintro ⟨i, j, _, bound, order, alike⟩
    exact ⟨i, j, order, bound, alike⟩
  · rintro ⟨i, j, order, bound, alike⟩
    exact ⟨i, j, order.trans bound, bound, order, alike⟩

/-! ## Edges and searches -/

/-- A `requires` edge leads from a prerequisite to the request that needs it. -/
def Requires (relations : List RequestRelation) (first next : Id) : Prop :=
  .requires next first ∈ relations

/-- The edges of `requires` and `precedes` relations, each from the earlier request to the later. -/
def Precedes (relations : List RequestRelation) (first next : Id) : Prop :=
  Requires relations first next ∨ .precedes first next ∈ relations

/-- The requests that are required. -/
theorem mem_requirements :
    (fun first next => (first, next) ∈ relations.filterMap RequestRelation.requirement) =
      Requires relations := by
  funext first next
  refine propext (List.mem_filterMap.trans ⟨?_, fun mem => ⟨_, mem, rfl⟩⟩)
  rintro ⟨relation, mem, edge⟩
  cases relation with
  | requires request required =>
    cases edge
    exact mem
  | _ => cases edge

/-- The requests that come before others. -/
theorem mem_directed :
    (fun first next => (first, next) ∈ relations.filterMap RequestRelation.directed) =
      Precedes relations := by
  funext first next
  refine propext (List.mem_filterMap.trans ⟨?_, ?_⟩)
  · rintro ⟨relation, mem, edge⟩
    cases relation with
    | requires request required =>
      cases edge
      exact .inl mem
    | precedes before after =>
      cases edge
      exact .inr mem
    | _ => cases edge
  · rintro (mem | mem)
    · exact ⟨_, mem, rfl⟩
    · exact ⟨_, mem, rfl⟩

/-- The search for a cycle ends on every graph, and its result is the one that is reported. -/
theorem searches_cycle (edges : List (Id × Id)) : ∃ found,
    DepthFirst.Searches (successors edges) [] [] (edges.map Prod.fst) found ∧
      (hasDirectedCycle edges = true ↔ found = none) := by
  have run : DepthFirst.Searches (successors edges) [] [] (edges.map Prod.fst) (DepthFirst.outcome
      (DepthFirst.visitAll (successors edges) (fun _ _ => .ok ()) () (2 * edges.length + 1) []
        ([] : List (Id × Unit)) (edges.map Prod.fst))) :=
    @DepthFirst.searches_visitAll Id Unit Unit _ _ _ endpoints_closed () () _ [] _ []
      List.nodup_nil (List.forall_mem_nil _) starts_endpoints (card_endpoints_lt edges)
  refine ⟨_, run, ?_⟩
  unfold hasDirectedCycle
  cases DepthFirst.visitAll (successors edges) (fun _ _ => .ok ()) () (2 * edges.length + 1) []
      ([] : List (Id × Unit)) (edges.map Prod.fst) with
  | ok visited => exact iff_of_false Bool.false_ne_true (Option.some_ne_none _)
  | error e => exact iff_of_true rfl rfl

/-- The search for a path ends on every graph. -/
theorem finds_path (edges : List (Id × Id)) (start stop : Id) :
    Digraph.Finds (successors edges) stop [start] [] (hasPath edges start stop) := by
  convert Digraph.finds_reachable targets_closed start_targets stop using 1
  rw [hasPath]
  congr

/-! ## Reports -/

/-- The problems of the relations, with the unit and predicate identifiers they refer to. -/
structure Reports (place : String) (unitIds predicateIds : List Id)
    (relations : List RequestRelation) : Prop where
  unknownRequest : place ++ ":relation-unknown-request" ∈
      validateRequestRelations place unitIds predicateIds relations ↔
    ∃ relation ∈ relations, ∃ id ∈ relation.requests, id ∉ unitIds
  unknownPredicate : place ++ ":relation-unknown-predicate" ∈
      validateRequestRelations place unitIds predicateIds relations ↔
    ∃ relation ∈ relations, ∃ id ∈ relation.predicate, id ∉ predicateIds
  duplicate : place ++ ":duplicate-relation" ∈
      validateRequestRelations place unitIds predicateIds relations ↔
    ∃ i j, ∃ order : i < j, ∃ bound : j < relations.length,
      (relations.get ⟨i, order.trans bound⟩).Alike relations[j]
  cycle : place ++ ":relation-cycle" ∈
      validateRequestRelations place unitIds predicateIds relations ↔
    ∃ id, TransGen (Precedes relations) id id
  conflict : place ++ ":relation-conflicting-condition" ∈
      validateRequestRelations place unitIds predicateIds relations ↔
    ∃ request predicate, .conditionalOn request predicate true ∈ relations ∧
      .conditionalOn request predicate false ∈ relations
  exclusive : place ++ ":relation-exclusive-dependency" ∈
      validateRequestRelations place unitIds predicateIds relations ↔
    ∃ ids, .mutuallyExclusive ids ∈ relations ∧ ∃ first ∈ ids.1.1, ∃ second ∈ ids.1.1,
      first ≠ second ∧
        (TransGen (Requires relations) first second ∨ TransGen (Requires relations) second first)

/-- The problems are the broken rules. -/
theorem mem_problemsOf {rules : List (Bool × String)} {text : String} :
    text ∈ problemsOf rules ↔ (true, text) ∈ rules := by
  simp [problemsOf]

/-- A problem of one relation names one of its references or a loop. -/
theorem RequestRelation.mem_problems {relation : RequestRelation} :
    place ++ code ∈ relation.problems place unitIds predicateIds ↔
      (code = ":relation-unknown-request" ∧ ∃ id ∈ relation.requests, id ∉ unitIds) ∨
        (code = ":relation-unknown-predicate" ∧ ∃ id ∈ relation.predicate, id ∉ predicateIds) ∨
          code = ":relation-self-reference" ∧ ∃ id, relation.directed = some (id, id) := by
  cases relation with
  | conditionalOn request predicate value =>
    simp [problems, mem_problemsOf, requests, RequestRelation.predicate, directed]
    grind
  | requires request required =>
    simp [problems, mem_problemsOf, requests, RequestRelation.predicate, directed]
    grind
  | precedes first last =>
    simp [problems, mem_problemsOf, requests, RequestRelation.predicate, directed]
    grind
  | mutuallyExclusive ids =>
    simp [problems, mem_problemsOf, requests, RequestRelation.predicate, directed]
    grind

/-- Two conditions of a request disagree. -/
theorem conditions_conflict :
    ((relations.filterMap RequestRelation.condition).any fun first =>
        (relations.filterMap RequestRelation.condition).any fun second =>
          first.1 == second.1 && first.2 != second.2) = true ↔
      ∃ request predicate, .conditionalOn request predicate true ∈ relations ∧
        .conditionalOn request predicate false ∈ relations := by
  have mem {place : Id × Id} {value : Bool} :
      (place, value) ∈ relations.filterMap RequestRelation.condition ↔
        .conditionalOn place.1 place.2 value ∈ relations := by
    refine List.mem_filterMap.trans ⟨?_, fun mem => ⟨_, mem, rfl⟩⟩
    rintro ⟨relation, mem, edge⟩
    cases relation with
    | conditionalOn request predicate required =>
      cases edge
      exact mem
    | _ => cases edge
  rw [List.any_eq_true]
  constructor
  · rintro ⟨⟨⟨request, predicate⟩, value⟩, first, conflict⟩
    obtain ⟨⟨place, other⟩, second, differs⟩ := List.any_eq_true.mp conflict
    rw [Bool.and_eq_true, beq_iff_eq, bne_iff_ne] at differs
    obtain ⟨rfl, differs⟩ := differs
    rw [mem] at first second
    refine ⟨request, predicate, ?_⟩
    -- Of two different values one is true and one is false.
    cases value <;> cases other
    · exact absurd rfl differs
    · exact ⟨second, first⟩
    · exact ⟨first, second⟩
    · exact absurd rfl differs
  · rintro ⟨request, predicate, first, second⟩
    refine ⟨((request, predicate), true), mem.mpr first, List.any_eq_true.mpr ?_⟩
    exact ⟨((request, predicate), false), mem.mpr second, by simp⟩

/-- Two requests of a group depend on each other. -/
theorem groups_depend :
    ((relations.filterMap RequestRelation.exclusiveGroup).any fun group =>
        group.any fun first => group.any fun second => decide (first.1 < second.1) &&
          (hasPath (relations.filterMap RequestRelation.requirement) first second ||
            hasPath (relations.filterMap RequestRelation.requirement) second first)) = true ↔
      ∃ ids, .mutuallyExclusive ids ∈ relations ∧ ∃ first ∈ ids.1.1, ∃ second ∈ ids.1.1,
        first ≠ second ∧
          (TransGen (Requires relations) first second ∨
            TransGen (Requires relations) second first) := by
  have path {first second : Id} (differs : first ≠ second) :
      hasPath (relations.filterMap RequestRelation.requirement) first second = true ↔
        TransGen (Requires relations) first second := by
    rw [hasPath_iff, mem_requirements, reflTransGen_iff_eq_or_transGen]
    exact or_iff_right differs.symm
  constructor
  · intro found
    obtain ⟨group, grouped, ordered⟩ := List.any_eq_true.mp found
    obtain ⟨first, memFirst, later⟩ := List.any_eq_true.mp ordered
    obtain ⟨second, memSecond, compared⟩ := List.any_eq_true.mp later
    rw [Bool.and_eq_true, decide_eq_true_iff, Bool.or_eq_true] at compared
    obtain ⟨order, paths⟩ := compared
    have differs : first ≠ second := fun same => absurd order (by rw [same]; exact lt_irrefl _)
    rw [path differs, path differs.symm] at paths
    obtain ⟨relation, mem, edge⟩ := List.mem_filterMap.mp grouped
    cases relation with
    | mutuallyExclusive ids =>
      cases edge
      exact ⟨ids, mem, first, memFirst, second, memSecond, differs, paths⟩
    | _ => cases edge
  · rintro ⟨ids, mem, first, memFirst, second, memSecond, differs, found⟩
    refine List.any_eq_true.mpr ⟨ids.1.1, List.mem_filterMap.mpr ⟨_, mem, rfl⟩, ?_⟩
    rw [← path differs, ← path differs.symm] at found
    -- The check compares each pair once, in the order of the identifiers.
    rcases lt_or_gt_of_ne (Subtype.coe_ne_coe.mpr differs) with order | order
    · refine List.any_eq_true.mpr ⟨first, memFirst, List.any_eq_true.mpr ⟨second, memSecond, ?_⟩⟩
      rw [Bool.and_eq_true, decide_eq_true_iff, Bool.or_eq_true]
      exact ⟨order, found⟩
    · refine List.any_eq_true.mpr ⟨second, memSecond, List.any_eq_true.mpr ⟨first, memFirst, ?_⟩⟩
      rw [Bool.and_eq_true, decide_eq_true_iff, Bool.or_eq_true]
      exact ⟨order, found.symm⟩

/-- The search finds the cycles that there are. -/
theorem cycle_iff : hasDirectedCycle (relations.filterMap RequestRelation.directed) = true ↔
    ∃ id, TransGen (Precedes relations) id id := by
  have none := @hasDirectedCycle_eq_false (relations.filterMap RequestRelation.directed)
  rw [mem_directed] at none
  rw [← Bool.not_eq_false, none]
  push Not
  rfl

/-- Where a problem comes from: one of the relations, or all of them together. -/
theorem mem_validateRequestRelations :
    place ++ code ∈ validateRequestRelations place unitIds predicateIds relations ↔
      (∃ relation ∈ relations, place ++ code ∈ relation.problems place unitIds predicateIds) ∨
      (¬ (relations.map RequestRelation.key).Nodup ∧ code = ":duplicate-relation") ∨
      (hasDirectedCycle (relations.filterMap RequestRelation.directed) = true ∧
        code = ":relation-cycle") ∨
      (((relations.filterMap RequestRelation.condition).any fun first =>
          (relations.filterMap RequestRelation.condition).any fun second =>
            first.1 == second.1 && first.2 != second.2) = true ∧
        code = ":relation-conflicting-condition") ∨
      ((relations.filterMap RequestRelation.exclusiveGroup).any fun group =>
        group.any fun first => group.any fun second => decide (first.1 < second.1) &&
          (hasPath (relations.filterMap RequestRelation.requirement) first second ||
            hasPath (relations.filterMap RequestRelation.requirement) second first)) = true ∧
        code = ":relation-exclusive-dependency" := by
  unfold validateRequestRelations
  rw [List.mem_append, List.mem_flatMap, mem_problemsOf]
  simp only [List.mem_cons, List.not_mem_nil, or_false, Prod.mk.injEq, String.append_right_inj,
    @eq_comm _ true, Bool.not_eq_true', decide_eq_false_iff_not]

/-- The checks report exactly the problems the relations have. -/
theorem reports : Reports place unitIds predicateIds relations where
  unknownRequest := by
    simp [mem_validateRequestRelations, RequestRelation.mem_problems]
  unknownPredicate := by
    simp [mem_validateRequestRelations, RequestRelation.mem_problems]
  duplicate := by
    rw [mem_validateRequestRelations, keys_repeat]
    simp [RequestRelation.mem_problems]
  cycle := by
    rw [mem_validateRequestRelations, cycle_iff]
    simp [RequestRelation.mem_problems]
  conflict := by
    rw [mem_validateRequestRelations, conditions_conflict]
    simp [RequestRelation.mem_problems]
  exclusive := by
    rw [mem_validateRequestRelations, groups_depend]
    simp [RequestRelation.mem_problems]

/-- The reports are exact, and the searches behind them end on every graph. -/
theorem relations_checked (place : String) (unitIds predicateIds : List Id)
    (relations : List RequestRelation) :
    Reports place unitIds predicateIds relations ∧
      (∀ edges, ∃ found, DepthFirst.Searches (successors edges) [] [] (edges.map Prod.fst) found ∧
        (hasDirectedCycle edges = true ↔ found = none)) ∧
      ∀ edges start stop,
        Digraph.Finds (successors edges) stop [start] [] (hasPath edges start stop) :=
  ⟨reports, searches_cycle, finds_path⟩

end Foliqant.Decisions
