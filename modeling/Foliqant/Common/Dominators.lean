import Mathlib.Data.Finset.Lattice.Basic
import Mathlib.Data.Finset.Card
import Mathlib.Data.Fintype.Option
import Mathlib.Algebra.GroupWithZero.Nat
import Mathlib.Algebra.Order.BigOperators.Group.List
import Mathlib.Algebra.Order.Group.Nat
import Foliqant.Common.Dict

/-!
# Dominators

The nodes on every path from a virtual root to a node, as the greatest solution of the dataflow
equations: the dominators of a node are the node itself and the common dominators of its parents.
The solution is found by sweeping over the nodes until nothing changes. The root is `none`.
-/

namespace Dominators

variable {α : Type} [DecidableEq α]

/-- The dominators found so far. -/
abbrev Table (α : Type) := List (α × Finset (Option α))

/-- The dominators of a node in a table. -/
def Table.get (table : Table α) : Option α → Finset (Option α)
  | none => {none}
  | some node => (table.lookup node).getD ∅

/-- What is found after a node was set. -/
theorem Table.get_set (node : α) (set : Finset (Option α)) (table : Table α) (other : Option α) :
    Table.get (Dict.set node set table) other =
      if other = some node then set else table.get other := by
  cases other with
  | none => rfl
  | some other =>
    by_cases same : other = node
    · subst same
      rw [if_pos rfl, Table.get, Dict.lookup_set_self, Option.getD_some]
    · rw [if_neg (by simpa using same), Table.get, Dict.lookup_set_of_ne same, Table.get]

/-- The intersection of the sets of the parents; empty without parents. -/
def common (table : Table α) : List (Option α) → Finset (Option α)
  | [] => ∅
  | [parent] => table.get parent
  | parent :: rest => table.get parent ∩ common table rest

/-- What all parents have in common. -/
theorem mem_common {table : Table α} {parents : List (Option α)} (h : parents ≠ []) {x : Option α} :
    x ∈ common table parents ↔ ∀ parent ∈ parents, x ∈ table.get parent := by
  induction parents with
  | nil => exact absurd rfl h
  | cons parent rest ih =>
    cases rest with
    | nil => simp [common]
    | cons other rest =>
      rw [common, Finset.mem_inter, ih (List.cons_ne_nil other rest)]
      · exact ⟨fun h => List.forall_mem_cons.mpr h, fun h => List.forall_mem_cons.mp h⟩
      · exact List.cons_ne_nil other rest

section Fixpoint

variable (parents : α → List (Option α)) (nodes : List α)

/-- The set the equation of a node demands. -/
def update (table : Table α) (node : α) : Finset (Option α) :=
  insert (some node) (common table (parents node))

/-- Update every node once, each with the sets updated before it. -/
def sweep (table : Table α) : Table α :=
  nodes.foldl (fun table node => Dict.set node (update parents table node) table) table

/-- Sweep until nothing changes. -/
def settle : ℕ → Table α → Table α
  | 0, table => table
  | fuel + 1, table =>
      let swept := sweep parents nodes table
      if ∀ node ∈ nodes, swept.get (some node) = table.get (some node) then swept
      else settle fuel swept

/-- Every set starts with all nodes and the root. -/
def top : Table α := nodes.map fun node => (node, insert none (nodes.map some).toFinset)

/-- The dominators of all nodes. -/
def solve : Table α := settle parents nodes ((nodes.length + 1) * nodes.length + 1) (top nodes)

/-! ## Paths -/

/-- A path from the root, its last node first. -/
inductive Path : List α → α → Prop
  | start {node : α} (edge : none ∈ parents node) : Path [node] node
  | step {path : List α} {parent node : α} (path_ : Path path parent)
      (edge : some parent ∈ parents node) : Path (node :: path) node

variable {parents nodes}

/-- The sets of a table meet the equations. -/
def Solves (parents : α → List (Option α)) (nodes : List α) (table : Table α) : Prop :=
  ∀ node ∈ nodes, table.get (some node) = update parents table node

/-- A dominator of a solution is on every path. -/
theorem Solves.sound {table : Table α} (h : Solves parents nodes table)
    (closed : ∀ node ∈ nodes, ∀ parent, some parent ∈ parents node → parent ∈ nodes) {path : List α}
    {node f : α} (path_ : Path parents path node) (mem : node ∈ nodes)
    (dom : some f ∈ table.get (some node)) : f ∈ path := by
  induction path_ with
  | start edge =>
    rw [h _ mem, update, Finset.mem_insert, mem_common (List.ne_nil_of_mem edge)] at dom
    rcases dom with dom | dom
    · rw [Option.some.inj dom]
      exact List.mem_cons_self
    · have := dom none edge
      simp [Table.get] at this
  | @step path parent node path_ edge ih =>
    rw [h _ mem, update, Finset.mem_insert, mem_common (List.ne_nil_of_mem edge)] at dom
    rcases dom with dom | dom
    · rw [Option.some.inj dom]
      exact List.mem_cons_self
    · exact List.mem_cons_of_mem _ (ih (closed node mem parent edge) (dom (some parent) edge))

/-! ## The sweeps -/

/-- Everything on every path is still in the sets. -/
def Complete (parents : α → List (Option α)) (nodes : List α) (table : Table α) : Prop :=
  ∀ node ∈ nodes, ∀ f ∈ nodes, (∀ path, Path parents path node → f ∈ path) →
    some f ∈ table.get (some node)

/-- What the equations demand is in the sets. -/
def Shrinking (parents : α → List (Option α)) (nodes : List α) (table : Table α) : Prop :=
  ∀ node ∈ nodes, update parents table node ⊆ table.get (some node)

/-- Larger sets demand larger sets. -/
theorem update_mono {table table' : Table α} (h : ∀ x, table'.get x ⊆ table.get x) (node : α) :
    update parents table' node ⊆ update parents table node := by
  refine Finset.insert_subset_insert _ ?_
  by_cases empty : parents node = []
  · rw [empty]
    exact Finset.Subset.refl _
  · intro x mem
    rw [mem_common empty] at mem ⊢
    exact fun parent edge => h parent (mem parent edge)

/-- An update shrinks the table. -/
theorem get_set_subset {table : Table α} {node : α}
    (h : update parents table node ⊆ table.get (some node)) (x : Option α) :
    Table.get (Dict.set node (update parents table node) table) x ⊆ table.get x := by
  rw [Table.get_set]
  by_cases same : x = some node
  · rw [if_pos same, same]
    exact h
  · rw [if_neg same]

/-- A shrinking table stays so. -/
theorem Shrinking.set {table : Table α} (h : Shrinking parents nodes table) {node : α}
    (mem : node ∈ nodes) :
    Shrinking parents nodes (Dict.set node (update parents table node) table) := by
  intro other mem'
  refine (update_mono (get_set_subset (h node mem)) other).trans ?_
  rw [Table.get_set]
  by_cases same : other = node
  · rw [if_pos (by rw [same]), same]
  · rw [if_neg (by simpa using same)]
    exact h other mem'

/-- A complete table stays so. -/
theorem Complete.set {table : Table α} (h : Complete parents nodes table)
    (closed : ∀ node ∈ nodes, ∀ parent, some parent ∈ parents node → parent ∈ nodes)
    (entered : ∀ node ∈ nodes, parents node ≠ []) {node : α} (mem : node ∈ nodes) :
    Complete parents nodes (Dict.set node (update parents table node) table) := by
  intro other mem' f known dominates
  rw [Table.get_set]
  by_cases same : other = node
  · rw [if_pos (by rw [same])]
    subst same
    rw [update, Finset.mem_insert, mem_common (entered other mem)]
    by_cases self : f = other
    · exact .inl (by rw [self])
    · refine .inr fun parent edge => ?_
      cases parent with
      | none =>
        have := dominates _ (.start edge)
        exact absurd (List.mem_singleton.mp this) self
      | some parent =>
        refine h parent (closed other mem parent edge) f known fun path path_ => ?_
        have := dominates _ (.step path_ edge)
        exact (List.mem_cons.mp this).resolve_left self
  · rw [if_neg (by simpa using same)]
    exact h other mem' f known dominates

/-- What a sweep over some of the nodes keeps, and that it only shrinks sets. -/
theorem sweep_spec (closed : ∀ node ∈ nodes, ∀ parent, some parent ∈ parents node → parent ∈ nodes)
    (entered : ∀ node ∈ nodes, parents node ≠ []) {some_ : List α}
    (sub : ∀ node ∈ some_, node ∈ nodes)
    {table : Table α} (shrinking : Shrinking parents nodes table)
    (complete : Complete parents nodes table) :
    Shrinking parents nodes (sweep parents some_ table) ∧
      Complete parents nodes (sweep parents some_ table) ∧
      ∀ x, (sweep parents some_ table).get x ⊆ table.get x := by
  induction some_ generalizing table with
  | nil => exact ⟨shrinking, complete, fun _ => Finset.Subset.refl _⟩
  | cons node rest ih =>
    have mem := sub node List.mem_cons_self
    have rest := ih (fun other h => sub other (List.mem_cons_of_mem _ h)) (shrinking.set mem)
      (complete.set closed entered mem)
    refine ⟨rest.1, rest.2.1, fun x => (rest.2.2 x).trans (get_set_subset (shrinking node mem) x)⟩

/-- A sweep changes the swept nodes only. -/
theorem sweep_get_other {some_ : List α} {node : α} (h : node ∉ some_) (table : Table α) :
    (sweep parents some_ table).get (some node) = table.get (some node) := by
  induction some_ generalizing table with
  | nil => rfl
  | cons first rest ih =>
    rw [List.mem_cons, not_or] at h
    show (sweep parents rest (Dict.set first (update parents table first) table)).get _ = _
    rw [ih h.2, Table.get_set, if_neg (by simpa using h.1)]

/-- A table with the same sets solves the equations too. -/
theorem Solves.congr {table table' : Table α} (h : Solves parents nodes table)
    (same : ∀ x, table'.get x = table.get x) : Solves parents nodes table' := by
  intro node mem
  rw [same, h node mem]
  exact Finset.Subset.antisymm (update_mono (fun x => (same x).symm.subset) node)
    (update_mono (fun x => (same x).subset) node)

/-- A sweep that changes nothing leaves a solution. -/
theorem sweep_solves (closed : ∀ node ∈ nodes, ∀ parent, some parent ∈ parents node → parent ∈ nodes)
    (entered : ∀ node ∈ nodes, parents node ≠ []) {some_ : List α}
    (sub : ∀ node ∈ some_, node ∈ nodes)
    {table : Table α} (shrinking : Shrinking parents nodes table)
    (complete : Complete parents nodes table)
    (unchanged : ∀ x, (sweep parents some_ table).get x = table.get x) :
    Solves parents some_ table := by
  induction some_ generalizing table with
  | nil => exact fun _ h => absurd h List.not_mem_nil
  | cons node rest ih =>
    have mem := sub node List.mem_cons_self
    have sub' : ∀ other ∈ rest, other ∈ nodes := fun other h => sub other (List.mem_cons_of_mem _ h)
    have shrinking' := shrinking.set mem
    have complete' := complete.set closed entered mem
    have shrinks := (sweep_spec closed entered sub' shrinking' complete').2.2
    -- the first update already is what the whole sweep leaves
    have first : ∀ x, Table.get (Dict.set node (update parents table node) table) x =
        table.get x := by
      intro x
      refine Finset.Subset.antisymm (get_set_subset (shrinking node mem) x) ?_
      rw [← unchanged x]
      exact shrinks x
    have others := ih sub' shrinking' complete' fun x => (unchanged x).trans (first x).symm
    intro other h
    have same : update parents (Dict.set node (update parents table node) table) other =
        update parents table other :=
      Finset.Subset.antisymm (update_mono (fun x => (first x).subset) other)
        (update_mono (fun x => (first x).symm.subset) other)
    rcases List.mem_cons.mp h with rfl | h
    · rw [← first (some other), Table.get_set, if_pos rfl]
    · rw [← first (some other), others other h, same]

/-- How many members the sets have. -/
def size (nodes : List α) (table : Table α) : ℕ :=
  (nodes.map fun node => (table.get (some node)).card).sum

/-- A smaller table has a smaller size. -/
theorem size_le {table table' : Table α} (h : ∀ x, table'.get x ⊆ table.get x) (some_ : List α) :
    size some_ table' ≤ size some_ table :=
  List.sum_le_sum fun node _ => Finset.card_le_card (h (some node))

/-- A sweep that changes a set makes the sets smaller. -/
theorem size_lt {table table' : Table α} (h : ∀ x, table'.get x ⊆ table.get x) {some_ : List α}
    (changed : ¬ ∀ node ∈ some_, table'.get (some node) = table.get (some node)) :
    size some_ table' < size some_ table := by
  induction some_ with
  | nil => exact absurd (fun _ h => absurd h List.not_mem_nil) changed
  | cons node rest ih =>
    have smaller := Finset.card_le_card (h (some node))
    simp only [size, List.map_cons, List.sum_cons] at ih ⊢
    by_cases same : table'.get (some node) = table.get (some node)
    · have := ih fun all => changed (List.forall_mem_cons.mpr ⟨same, all⟩)
      omega
    · have := Finset.card_lt_card (Finset.ssubset_iff_subset_ne.mpr ⟨h (some node), same⟩)
      have := size_le h rest
      simp only [size] at this
      omega

/-- Sweeping ends in a table that no sweep changes. -/
theorem settle_spec (closed : ∀ node ∈ nodes, ∀ parent, some parent ∈ parents node → parent ∈ nodes)
    (entered : ∀ node ∈ nodes, parents node ≠ []) {fuel : ℕ} {table : Table α}
    (shrinking : Shrinking parents nodes table) (complete : Complete parents nodes table)
    (enough : size nodes table < fuel) :
    Solves parents nodes (settle parents nodes fuel table) ∧
      Complete parents nodes (settle parents nodes fuel table) := by
  induction fuel generalizing table with
  | zero => omega
  | succ fuel ih =>
    obtain ⟨shrinking', complete', shrinks⟩ :=
      sweep_spec closed entered (fun _ h => h) shrinking complete
    unfold settle
    by_cases stable : ∀ node ∈ nodes,
        (sweep parents nodes table).get (some node) = table.get (some node)
    · rw [if_pos stable]
      have unchanged : ∀ x, (sweep parents nodes table).get x = table.get x := by
        rintro (_ | node)
        · rfl
        · by_cases mem : node ∈ nodes
          · exact stable node mem
          · exact sweep_get_other mem table
      refine ⟨?_, complete'⟩
      exact (sweep_solves closed entered (fun _ h => h) shrinking complete unchanged).congr unchanged
    · rw [if_neg stable]
      have := size_lt shrinks stable
      exact ih shrinking' complete' (by omega)

/-! ## The solution -/

/-- At the start everything may dominate. -/
theorem top_get {node : α} (mem : node ∈ nodes) :
    (top nodes).get (some node) = insert none (nodes.map some).toFinset := by
  unfold top
  generalize insert none (nodes.map some).toFinset = set
  have : (nodes.map fun node => (node, set)).lookup node = some set := by
    induction nodes with
    | nil => cases mem
    | cons first rest ih =>
      rw [List.map_cons, List.lookup_cons]
      by_cases same : node = first
      · rw [same, beq_self_eq_true]
      · rw [beq_false_of_ne same]
        exact ih ((List.mem_cons.mp mem).resolve_left same)
  rw [Table.get, this, Option.getD_some]

/-- The start is shrinking. -/
theorem top_shrinking
    (closed : ∀ node ∈ nodes, ∀ parent, some parent ∈ parents node → parent ∈ nodes) :
    Shrinking parents nodes (top nodes) := by
  intro node mem x h
  rw [top_get mem]
  rw [update, Finset.mem_insert] at h
  rcases h with rfl | h
  · simpa using mem
  · by_cases empty : parents node = []
    · rw [empty] at h
      exact absurd h (Finset.notMem_empty x)
    · obtain ⟨parent, edge⟩ := List.exists_mem_of_ne_nil _ empty
      have h := (mem_common empty).mp h parent edge
      cases parent with
      | none =>
        rw [Table.get, Finset.mem_singleton] at h
        exact Finset.mem_insert.mpr (.inl h)
      | some parent => rwa [top_get (closed node mem parent edge)] at h

/-- The start is complete. -/
theorem top_complete : Complete parents nodes (top nodes) := by
  intro node mem f known _
  rw [top_get mem]
  simpa using known

/-- The size of the start is within the fuel. -/
theorem size_top : size nodes (top nodes) < (nodes.length + 1) * nodes.length + 1 := by
  have each : ∀ card ∈ nodes.map fun node => ((top nodes).get (some node)).card,
      card ≤ nodes.length + 1 := by
    intro card h
    obtain ⟨node, mem, rfl⟩ := List.mem_map.mp h
    rw [top_get mem]
    refine (Finset.card_insert_le _ _).trans (Nat.succ_le_succ ?_)
    exact (List.toFinset_card_le _).trans (List.length_map _).le
  have := List.sum_le_card_nsmul _ _ each
  rw [List.length_map, Nat.nsmul_eq_mul, Nat.mul_comm] at this
  exact Nat.lt_succ_of_le this

/-- Whatever the solution has at a node is on every path to it. -/
theorem solve_sound (closed : ∀ node ∈ nodes, ∀ parent, some parent ∈ parents node → parent ∈ nodes)
    (entered : ∀ node ∈ nodes, parents node ≠ []) {node f : α} (mem : node ∈ nodes)
    (dom : some f ∈ (solve parents nodes).get (some node)) {path : List α}
    (path_ : Path parents path node) : f ∈ path :=
  (settle_spec closed entered (top_shrinking closed) top_complete size_top).1.sound
    closed path_ mem dom

/-- The solution is exact: a node dominates another one when it is on every path to it. -/
theorem mem_solve (closed : ∀ node ∈ nodes, ∀ parent, some parent ∈ parents node → parent ∈ nodes)
    (entered : ∀ node ∈ nodes, parents node ≠ []) {node f : α} (mem : node ∈ nodes)
    (known : f ∈ nodes) :
    some f ∈ (solve parents nodes).get (some node) ↔
      ∀ path, Path parents path node → f ∈ path := by
  have spec := settle_spec closed entered (top_shrinking closed) top_complete size_top
  constructor
  · intro dom path path_
    exact spec.1.sound closed path_ mem dom
  · exact spec.2 node mem f known

end Fixpoint

end Dominators
