import Mathlib.Data.Finset.Card
import Mathlib.Data.Finset.Dedup
import Mathlib.Logic.Relation
import Foliqant.Common.Dict
import Foliqant.Common.Digraph
import Foliqant.Common.Fallible

/-!
# Depth-first search that refuses cycles

A search visits the nodes reachable from a start, refuses a node that is on the path to itself, and
computes a value of each node once its successors have theirs. The visited nodes, latest first, are
in topological order: every successor of a node comes later in the list.
-/

namespace DepthFirst

open Digraph

variable {α β ε : Type}

section Search

variable (edges : α → List α) (finish : List (α × β) → α → Except ε β) (cycle : ε)

/-- Visit a node below the nodes on the stack. The fuel bounds the length of a path. -/
def visit [DecidableEq α] : ℕ → List α → List (α × β) → α → Except ε (List (α × β))
  | 0, _, _, _ => .error cycle
  | fuel + 1, stack, visited, node =>
      if node ∈ stack then .error cycle
      else if node ∈ Dict.keys visited then .ok visited
      else do
        let visited ← (edges node).foldlM (visit fuel (node :: stack)) visited
        let value ← finish visited node
        return (node, value) :: visited

/-- Visit several nodes one after the other. -/
def visitAll [DecidableEq α] (fuel : ℕ) (stack : List α) (visited : List (α × β)) (nodes : List α) :
    Except ε (List (α × β)) :=
  nodes.foldlM (visit edges finish cycle fuel stack) visited

/-- Nodes in topological order with their values. -/
inductive Topological : List (α × β) → Prop
  | nil : Topological []
  | cons {node : α} {value : β} {visited : List (α × β)} (fresh : node ∉ Dict.keys visited)
      (successors : ∀ next ∈ edges node, next ∈ Dict.keys visited)
      (finished : finish visited node = .ok value) (rest : Topological visited) :
      Topological ((node, value) :: visited)

variable {edges finish cycle}

/-- The successors of visited nodes are visited. -/
theorem Topological.closed {visited : List (α × β)}
    (h : Topological edges finish visited) {node next : α}
    (mem : node ∈ Dict.keys visited) (edge : next ∈ edges node) : next ∈ Dict.keys visited := by
  induction h with
  | nil => cases mem
  | cons _ successors _ _ ih =>
    rcases List.mem_cons.mp mem with rfl | mem
    · exact List.mem_cons_of_mem _ (successors next edge)
    · exact List.mem_cons_of_mem _ (ih mem)

/-- No visited node is on a cycle. -/
theorem Topological.acyclic {visited : List (α × β)} (h : Topological edges finish visited) {node : α}
    (mem : node ∈ Dict.keys visited) :
    ¬ Relation.TransGen (fun first next => next ∈ edges first) node node := by
  induction h with
  | nil => cases mem
  | @cons _ _ visited fresh successors _ rest ih =>
    rcases List.mem_cons.mp mem with rfl | mem
    · intro cycle
      obtain ⟨next, edge, back⟩ := Relation.TransGen.head'_iff.mp cycle
      -- The successors are visited without the node, and so is whatever they reach.
      have inside : ∀ {other}, Reaches edges next other → other ∈ Dict.keys visited := by
        intro other reaches
        induction reaches with
        | refl => exact successors next edge
        | tail _ edge ih => exact rest.closed ih edge
      exact fresh (inside back)
    · exact ih mem

/-- Nodes that come later do not change the value of a visited node. -/
theorem lookup_of_fresh [DecidableEq α] {visited : List (α × β)} {node other : α} {value : β}
    (fresh : node ∉ Dict.keys visited) (mem : other ∈ Dict.keys visited) :
    ((node, value) :: visited).lookup other = visited.lookup other := by
  have ne : other ≠ node := by
    rintro rfl
    exact fresh mem
  rw [List.lookup_cons, beq_false_of_ne ne]

/-- A visited node was finished over values of its successors that are still the same. -/
theorem Topological.finished [DecidableEq α] {visited : List (α × β)}
    (h : Topological edges finish visited) {node : α} (mem : node ∈ Dict.keys visited) :
    ∃ before value, finish before node = .ok value ∧ visited.lookup node = some value ∧
      ∀ next ∈ edges node, visited.lookup next = before.lookup next := by
  induction h with
  | nil => cases mem
  | @cons first value visited fresh successors finished rest ih =>
    rcases List.mem_cons.mp mem with rfl | mem
    · refine ⟨visited, value, finished, ?_, fun next edge => ?_⟩
      · rw [List.lookup_cons, beq_self_eq_true]
      · exact lookup_of_fresh fresh (successors next edge)
    · obtain ⟨before, own, done, known, same⟩ := ih mem
      refine ⟨before, own, done, ?_, fun next edge => ?_⟩
      · rw [lookup_of_fresh fresh mem]
        exact known
      · rw [lookup_of_fresh fresh (rest.closed mem edge)]
        exact same next edge

variable (edges finish) in
/-- What a search from some nodes has added to the visited nodes. -/
structure Extends (stack nodes : List α) (before after : List (α × β)) : Prop where
  topological : Topological edges finish after
  known : ∀ node ∈ Dict.keys before, node ∈ Dict.keys after
  offStack : ∀ node ∈ Dict.keys after, node ∈ Dict.keys before ∨ node ∉ stack
  reached : ∀ node ∈ Dict.keys after, node ∈ Dict.keys before ∨ ∃ start ∈ nodes,
    Reaches edges start node
  visited : ∀ node ∈ nodes, node ∈ Dict.keys after

/-- Visiting no nodes extends nothing. -/
theorem Extends.nil {stack : List α} {visited : List (α × β)}
    (topological : Topological edges finish visited) :
    Extends edges finish stack [] visited visited where
  topological := topological
  known _ h := h
  offStack _ h := .inl h
  reached _ h := .inl h
  visited _ h := absurd h List.not_mem_nil

/-- Visiting one node and then the others extends the visited nodes by all of them. -/
theorem Extends.cons {stack nodes : List α} {node : α} {before middle after : List (α × β)}
    (first : Extends edges finish stack [node] before middle)
    (rest : Extends edges finish stack nodes middle after) :
    Extends edges finish stack (node :: nodes) before after where
  topological := rest.topological
  known other h := rest.known other (first.known other h)
  offStack other h := by
    rcases rest.offStack other h with h | h
    · exact first.offStack other h
    · exact .inr h
  reached other h := by
    rcases rest.reached other h with h | ⟨start, mem, reaches⟩
    · refine (first.reached other h).imp_right ?_
      rintro ⟨start, mem, reaches⟩
      rw [List.mem_singleton.mp mem] at reaches
      exact ⟨node, List.mem_cons_self, reaches⟩
    · exact .inr ⟨start, List.mem_cons_of_mem _ mem, reaches⟩
  visited other h := by
    rcases List.mem_cons.mp h with rfl | h
    · exact rest.known other (first.visited other List.mem_cons_self)
    · exact rest.visited other h

/-- A node that was visited before adds nothing. -/
theorem Extends.known_node {stack : List α} {node : α} {visited : List (α × β)}
    (topological : Topological edges finish visited) (h : node ∈ Dict.keys visited) :
    Extends edges finish stack [node] visited visited where
  topological := topological
  known _ h := h
  offStack _ h := .inl h
  reached _ h := .inl h
  visited other mem := by rwa [List.mem_singleton.mp mem]

/-- A node is added above its successors. -/
theorem Extends.push {stack : List α} {node : α} {before after : List (α × β)} {value : β}
    (below : Extends edges finish (node :: stack) (edges node) before after)
    (offStack : node ∉ stack) (fresh : node ∉ Dict.keys before)
    (finished : finish after node = .ok value) :
    Extends edges finish stack [node] before ((node, value) :: after) where
  topological := by
    refine .cons ?_ below.visited finished below.topological
    intro h
    rcases below.offStack node h with h | h
    · exact fresh h
    · exact h List.mem_cons_self
  known other h := List.mem_cons_of_mem _ (below.known other h)
  offStack other h := by
    rcases List.mem_cons.mp h with rfl | h
    · exact .inr offStack
    · exact (below.offStack other h).imp_right fun h mem => h (List.mem_cons_of_mem _ mem)
  reached other h := by
    rcases List.mem_cons.mp h with rfl | h
    · exact .inr ⟨_, List.mem_cons_self, .refl⟩
    · refine (below.reached other h).imp_right ?_
      rintro ⟨start, mem, reaches⟩
      exact ⟨node, List.mem_cons_self, .head mem reaches⟩
  visited other h := by
    rw [List.mem_singleton.mp h]
    exact List.mem_cons_self

variable [DecidableEq α]

/-- Visiting a list visits its first node, and the others after it. -/
theorem visitAll_cons {fuel : ℕ} {stack nodes : List α} {node : α} {visited : List (α × β)} :
    visitAll edges finish cycle fuel stack visited (node :: nodes) =
      (visit edges finish cycle fuel stack visited node).bind fun visited =>
        visitAll edges finish cycle fuel stack visited nodes := rfl

/-- The list step: if visiting one node extends the visited ones, visiting a list does. -/
theorem visitAll_extends_of {fuel : ℕ}
    (hvisit : ∀ {stack before after node}, Topological edges finish before →
      visit edges finish cycle fuel stack before node = .ok after →
        Extends edges finish stack [node] before after)
    {stack nodes : List α} {before after : List (α × β)}
    (topological : Topological edges finish before)
    (h : visitAll edges finish cycle fuel stack before nodes = .ok after) :
    Extends edges finish stack nodes before after := by
  induction nodes generalizing before with
  | nil =>
    cases h
    exact .nil topological
  | cons node nodes ih =>
    rw [visitAll_cons] at h
    obtain ⟨middle, first, rest⟩ := Except.bind_eq_ok.mp h
    have first := hvisit topological first
    exact first.cons (ih first.topological rest)

/-- A visit that returns leaves a topological order that holds the node and all below it. -/
theorem visit_extends {fuel : ℕ} {stack : List α} {before after : List (α × β)} {node : α}
    (topological : Topological edges finish before)
    (h : visit edges finish cycle fuel stack before node = .ok after) :
    Extends edges finish stack [node] before after := by
  induction fuel generalizing stack before after node with
  | zero => cases h
  | succ fuel ih =>
    unfold visit at h
    by_cases onStack : node ∈ stack
    · rw [if_pos onStack] at h
      cases h
    rw [if_neg onStack] at h
    by_cases known : node ∈ Dict.keys before
    · rw [if_pos known] at h
      cases h
      exact .known_node topological known
    rw [if_neg known] at h
    obtain ⟨middle, below, h⟩ := Except.bind_eq_ok.mp h
    obtain ⟨value, finished, h⟩ := Except.bind_eq_ok.mp h
    cases h
    exact (visitAll_extends_of (fun t h => ih t h) topological below).push onStack known finished

/-- The same for a list of nodes. -/
theorem visitAll_extends {fuel : ℕ} {stack nodes : List α} {before after : List (α × β)}
    (topological : Topological edges finish before)
    (h : visitAll edges finish cycle fuel stack before nodes = .ok after) :
    Extends edges finish stack nodes before after :=
  visitAll_extends_of visit_extends topological h

end Search

/-! ## The fuel -/

section Fuel

variable [DecidableEq α] {edges : α → List α} {finish : List (α × β) → α → Except ε β} {cycle : ε}
  {universe_ : Finset α}

/-- With enough fuel and a total `finish`, a search fails on a cycle only. -/
theorem visit_error (closed : ∀ node ∈ universe_, ∀ next ∈ edges node, next ∈ universe_)
    (finishes : ∀ visited node, ∃ value, finish visited node = .ok value) {fuel : ℕ} {stack : List α}
    {visited : List (α × β)} {node : α} {e : ε} (nodup : stack.Nodup)
    (inside : ∀ other ∈ stack, other ∈ universe_) (mem : node ∈ universe_)
    (enough : universe_.card < fuel + stack.length)
    (path : ∀ other ∈ stack, Relation.TransGen (fun first next => next ∈ edges first) other node)
    (h : visit edges finish cycle fuel stack visited node = .error e) :
    ∃ node, Relation.TransGen (fun first next => next ∈ edges first) node node := by
  induction fuel generalizing stack visited node with
  | zero =>
    -- the stack is a path of distinct nodes, so the fuel does not run out before it repeats
    have := Finset.card_le_card (s := stack.toFinset) (t := universe_) (by
      intro other h
      exact inside other (List.mem_toFinset.mp h))
    rw [List.toFinset_card_of_nodup nodup] at this
    omega
  | succ fuel ih =>
    rw [visit] at h
    by_cases onStack : node ∈ stack
    · exact ⟨node, path node onStack⟩
    rw [if_neg onStack] at h
    by_cases known : node ∈ Dict.keys visited
    · rw [if_pos known] at h
      cases h
    rw [if_neg known] at h
    rcases Except.bind_eq_error.mp h with h | ⟨middle, -, h⟩
    · obtain ⟨next, edge, before, h⟩ := Except.exists_of_foldlM_error h
      refine ih (List.nodup_cons.mpr ⟨onStack, nodup⟩) ?_ (closed node mem next edge) ?_ ?_ h
      · intro other member
        rcases List.mem_cons.mp member with rfl | member
        · exact mem
        · exact inside other member
      · rw [List.length_cons]
        omega
      · intro other member
        rcases List.mem_cons.mp member with rfl | member
        · exact .single edge
        · exact (path other member).tail edge
    · obtain ⟨value, finished⟩ := finishes middle node
      rw [finished] at h
      cases h

/-- A failed search shows a cycle. -/
theorem visitAll_error (closed : ∀ node ∈ universe_, ∀ next ∈ edges node, next ∈ universe_)
    (finishes : ∀ visited node, ∃ value, finish visited node = .ok value) {fuel : ℕ}
    {visited : List (α × β)} {nodes : List α} {e : ε} (inside : ∀ node ∈ nodes, node ∈ universe_)
    (enough : universe_.card < fuel)
    (h : visitAll edges finish cycle fuel [] visited nodes = .error e) :
    ∃ node, Relation.TransGen (fun first next => next ∈ edges first) node node := by
  obtain ⟨node, mem, before, h⟩ := Except.exists_of_foldlM_error h
  exact visit_error closed finishes List.nodup_nil (fun _ h => absurd h List.not_mem_nil)
    (inside node mem) enough (fun _ h => absurd h List.not_mem_nil) h

end Fuel

/-! ## Runs without fuel -/

section Runs

variable (edges : α → List α)

/-- The search of several nodes below a stack, as it goes: it stops at a node on the stack, skips a
node it has visited and visits the successors of any other before the node itself. The result is the
visited nodes, or nothing once a cycle shows. -/
inductive Searches : List α → List α → List α → Option (List α) → Prop
  | nil {stack visited : List α} : Searches stack visited [] (some visited)
  | onStack {stack visited nodes : List α} {node : α} (mem : node ∈ stack) :
      Searches stack visited (node :: nodes) none
  | known {stack visited nodes : List α} {node : α} {found : Option (List α)} (fresh : node ∉ stack)
      (mem : node ∈ visited) (rest : Searches stack visited nodes found) :
      Searches stack visited (node :: nodes) found
  | cycle {stack visited nodes : List α} {node : α} (fresh : node ∉ stack) (unknown : node ∉ visited)
      (below : Searches (node :: stack) visited (edges node) none) :
      Searches stack visited (node :: nodes) none
  | done {stack visited after nodes : List α} {node : α} {found : Option (List α)}
      (fresh : node ∉ stack) (unknown : node ∉ visited)
      (below : Searches (node :: stack) visited (edges node) (some after))
      (rest : Searches stack (node :: after) nodes found) :
      Searches stack visited (node :: nodes) found

variable {edges} [DecidableEq α] {universe_ : Finset α}

/-- What a computed search says about its run. -/
def outcome (searched : Except ε (List (α × β))) : Option (List α) :=
  match searched with
  | .ok visited => some (Dict.keys visited)
  | .error _ => none

/-- With fuel for a path through all nodes of a finite graph, the search computes a run: no run goes
on forever. -/
theorem searches_visitAll (closed : ∀ node ∈ universe_, ∀ next ∈ edges node, next ∈ universe_)
    {value : β} {cycle : ε} {fuel : ℕ} {stack nodes : List α} {visited : List (α × β)}
    (nodup : stack.Nodup) (inside : ∀ other ∈ stack, other ∈ universe_)
    (mem : ∀ node ∈ nodes, node ∈ universe_) (enough : universe_.card < fuel + stack.length) :
    Searches edges stack (Dict.keys visited) nodes
      (outcome (visitAll edges (fun _ _ => .ok value) cycle fuel stack visited nodes)) := by
  induction fuel generalizing stack nodes visited with
  | zero =>
    have := Finset.card_le_card (s := stack.toFinset) (t := universe_) (by
      intro other h
      exact inside other (List.mem_toFinset.mp h))
    rw [List.toFinset_card_of_nodup nodup] at this
    omega
  | succ fuel ih =>
    induction nodes generalizing visited with
    | nil => exact .nil
    | cons node nodes ihNodes =>
      have others : ∀ other ∈ nodes, other ∈ universe_ :=
        fun other h => mem other (List.mem_cons_of_mem _ h)
      rw [visitAll_cons, visit]
      by_cases onStack : node ∈ stack
      · rw [if_pos onStack]
        exact .onStack onStack
      rw [if_neg onStack]
      by_cases known : node ∈ Dict.keys visited
      · rw [if_pos known]
        exact .known onStack known (ihNodes others)
      rw [if_neg known]
      have enough : universe_.card < fuel + (node :: stack).length := by
        rw [List.length_cons]
        omega
      have below := @ih (node :: stack) (edges node) visited (List.nodup_cons.mpr ⟨onStack, nodup⟩)
        (List.forall_mem_cons.mpr ⟨mem node List.mem_cons_self, inside⟩)
        (closed node (mem node List.mem_cons_self)) enough
      rw [visitAll] at below
      -- The successors are searched one level down, with one unit of fuel less.
      cases searched : (edges node).foldlM
          (visit edges (fun _ _ => .ok value) cycle fuel (node :: stack))
          visited with
      | error e =>
        rw [searched] at below
        exact .cycle onStack known below
      | ok after =>
        rw [searched] at below
        exact .done onStack known below (@ihNodes ((node, value) :: after) others)

end Runs

end DepthFirst
