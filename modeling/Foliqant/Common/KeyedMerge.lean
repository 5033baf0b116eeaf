import Mathlib.Data.List.Sort
import Foliqant.Common.Dict

/-!
# Merging of dictionaries

Two dictionaries are merged by combining the values of a key that both have, and the result is ordered
by key. An operation that is commutative and associative on a closed class of values makes the merge
commutative and associative on the ordered dictionaries of such values, and a sum over the values of a
merge is the sum of the sums.
-/

/-! ## Operations on a class of values -/

/-- Closed, commutative and associative on a class of values. -/
structure CommOn {α : Type*} (P : α → Prop) (op : α → α → α) : Prop where
  closed {a b : α} : P a → P b → P (op a b)
  comm {a b : α} : P a → P b → op a b = op b a
  assoc {a b c : α} : P a → P b → P c → op (op a b) c = op a (op b c)

/-- The sum of the elements without a neutral one. -/
def List.sumBy? {α : Type*} (op : α → α → α) : List α → Option α
  | [] => none
  | a :: as => some (as.foldl op a)

/-- A sum of elements of a class is in the class. -/
theorem List.of_sumBy? {α : Type*} {P : α → Prop} {op : α → α → α}
    (closed : ∀ {a b}, P a → P b → P (op a b)) {as : List α} (has : ∀ a ∈ as, P a) {sum : α}
    (hsum : sum ∈ as.sumBy? op) : P sum := by
  rcases as with _ | ⟨a, as⟩
  · cases hsum
  obtain rfl := Option.some.inj hsum
  clear hsum
  rw [List.forall_mem_cons] at has
  obtain ⟨first, rest⟩ := has
  induction as generalizing a with
  | nil => exact first
  | cons b as ih =>
    rw [List.forall_mem_cons] at rest
    exact ih (op a b) (closed first rest.1) rest.2

/-- The lifted operation keeps a class of optional values. -/
theorem Option.of_merge {α : Type*} {P : α → Prop} {op : α → α → α}
    (closed : ∀ {a b}, P a → P b → P (op a b)) {left right : Option α} (hleft : ∀ a ∈ left, P a)
    (hright : ∀ b ∈ right, P b) : ∀ x ∈ Option.merge op left right, P x := by
  rcases left with _ | a <;> rcases right with _ | b
  · nofun
  · exact hright
  · exact hleft
  · rintro _ ⟨⟩
    exact closed (hleft a rfl) (hright b rfl)

/-- One more element is added last. -/
theorem List.sumBy?_concat {α : Type*} (op : α → α → α) (as : List α) (a : α) :
    (as ++ [a]).sumBy? op = Option.merge op (as.sumBy? op) (some a) := by
  rcases as with _ | ⟨b, as⟩
  · rfl
  · show some ((as ++ [a]).foldl op b) = some (op (as.foldl op b) a)
    rw [List.foldl_append, List.foldl_cons, List.foldl_nil]

/-- A function that turns one operation into another turns sums into sums. -/
theorem List.map_sumBy? {α β : Type*} {op : α → α → α} {op' : β → β → β} {f : α → β}
    (map_op : ∀ a b, f (op a b) = op' (f a) (f b)) {as : List α} :
    (as.sumBy? op).map f = (as.map f).sumBy? op' := by
  rcases as with _ | ⟨a, as⟩
  · rfl
  refine congrArg some ?_
  induction as generalizing a with
  | nil => rfl
  | cons b as ih => rw [List.foldl_cons, ih (op a b), List.map_cons, List.foldl_cons, map_op]

namespace CommOn

variable {α : Type*} {P : α → Prop} {op : α → α → α}

/-- The first operand may be taken out of a fold. -/
theorem foldl_op (h : CommOn P op) {a b : α} {as : List α} (ha : P a) (hb : P b)
    (has : ∀ c ∈ as, P c) : as.foldl op (op a b) = op a (as.foldl op b) := by
  induction as generalizing b with
  | nil => rfl
  | cons c as ih =>
    rw [List.forall_mem_cons] at has
    rw [List.foldl_cons, List.foldl_cons, h.assoc ha hb has.1, ih (h.closed hb has.1) has.2]

/-- The sum of a first value and the others. -/
theorem sumBy?_cons (h : CommOn P op) {a : α} {as : List α} (ha : P a) (has : ∀ b ∈ as, P b) :
    (a :: as).sumBy? op = Option.merge op (some a) (as.sumBy? op) := by
  rcases as with _ | ⟨b, as⟩
  · rfl
  · rw [List.forall_mem_cons] at has
    exact congrArg some (h.foldl_op ha has.1 has.2)

/-- A sum of such values is one. -/
theorem of_sumBy? (h : CommOn P op) {as : List α} (has : ∀ a ∈ as, P a) {sum : α}
    (hsum : sum ∈ as.sumBy? op) : P sum :=
  List.of_sumBy? h.closed has hsum

/-- The lifted operation on optional values. -/
theorem merge (h : CommOn P op) : CommOn (fun a : Option α => ∀ x ∈ a, P x) (Option.merge op) where
  closed := Option.of_merge h.closed
  comm {a b} ha hb := by
    rcases a with _ | a <;> rcases b with _ | b <;> try rfl
    exact congrArg some (h.comm (ha a rfl) (hb b rfl))
  assoc {a b c} ha hb hc := by
    rcases a with _ | a <;> rcases b with _ | b <;> rcases c with _ | c <;> try rfl
    exact congrArg some (h.assoc (ha a rfl) (hb b rfl) (hc c rfl))

/-- The sum of two lists. -/
theorem sumBy?_append (h : CommOn P op) {as bs : List α} (has : ∀ a ∈ as, P a)
    (hbs : ∀ b ∈ bs, P b) :
    (as ++ bs).sumBy? op = Option.merge op (as.sumBy? op) (bs.sumBy? op) := by
  induction as with
  | nil => exact Option.merge_none_left.symm
  | cons a as ih =>
    rw [List.forall_mem_cons] at has
    rw [List.cons_append, h.sumBy?_cons has.1 (List.forall_mem_append.mpr ⟨has.2, hbs⟩), ih has.2,
      h.sumBy?_cons has.1 has.2]
    refine (h.merge.assoc ?_ (fun _ => h.of_sumBy? has.2) (fun _ => h.of_sumBy? hbs)).symm
    rintro _ ⟨⟩
    exact has.1

/-- A sum does not depend on the order. -/
theorem sumBy?_perm (h : CommOn P op) {as bs : List α} (perm : as.Perm bs) (has : ∀ a ∈ as, P a) :
    as.sumBy? op = bs.sumBy? op := by
  induction perm with
  | nil => rfl
  | cons a perm ih =>
    rw [List.forall_mem_cons] at has
    rw [h.sumBy?_cons has.1 has.2, ih has.2,
      h.sumBy?_cons has.1 fun b mem => has.2 b (perm.mem_iff.mpr mem)]
  | swap a b as =>
    rw [List.forall_mem_cons, List.forall_mem_cons] at has
    show some (as.foldl op (op b a)) = some (as.foldl op (op a b))
    rw [h.comm has.1 has.2.1]
  | trans first _ ih ih' =>
    rw [ih has, ih' fun b mem => has b (first.mem_iff.mpr mem)]

end CommOn

/-! ## Ordered dictionaries -/

namespace Dict

variable {κ α β : Type*} [LinearOrder κ] [DecidableEq κ]

/-- The keys ascend. -/
def Sorted (dict : List (κ × α)) : Prop := (keys dict).Pairwise (· < ·)

/-- Add a value to what a key already has. -/
def add (op : α → α → α) (dict : List (κ × α)) (entry : κ × α) : List (κ × α) :=
  set entry.1
    (match dict.lookup entry.1 with
      | none => entry.2
      | some previous => op previous entry.2) dict

/-- Merge two dictionaries and order the result by key. -/
def merge (op : α → α → α) (left right : List (κ × α)) : List (κ × α) :=
  if right = [] then left else (right.foldl (add op) left).insertionSort fun a b => a.1 ≤ b.1

variable {op : α → α → α} {left right dict : List (κ × α)}

omit [DecidableEq κ] in
/-- Sorted keys differ. -/
theorem Sorted.nodup (h : Sorted dict) : (keys dict).Nodup := h.imp ne_of_lt

omit [LinearOrder κ] in
/-- What is found after an entry was added. -/
theorem lookup_add (dict : List (κ × α)) (entry : κ × α) (key : κ) :
    (add op dict entry).lookup key =
      Option.merge op (dict.lookup key) (if key = entry.1 then some entry.2 else none) := by
  unfold add
  by_cases same : key = entry.1
  · rw [same, lookup_set_self, if_pos rfl]
    rcases dict.lookup entry.1 with _ | previous <;> rfl
  · rw [lookup_set_of_ne same, if_neg same, Option.merge_none_right]

omit [LinearOrder κ] in
/-- Adding an entry keeps the keys different. -/
theorem nodup_add (h : (keys dict).Nodup) (entry : κ × α) : (keys (add op dict entry)).Nodup :=
  nodup_keys_set h _

omit [LinearOrder κ] in
/-- Adding entries keeps the keys different. -/
theorem nodup_foldl_add (h : (keys left).Nodup) (right : List (κ × α)) :
    (keys (right.foldl (add op) left)).Nodup := by
  induction right generalizing left with
  | nil => exact h
  | cons entry right ih => exact ih (nodup_add h entry)

omit [LinearOrder κ] in
/-- What is found after entries were added. -/
theorem lookup_foldl_add (hright : (keys right).Nodup) (left : List (κ × α)) (key : κ) :
    (right.foldl (add op) left).lookup key =
      Option.merge op (left.lookup key) (right.lookup key) := by
  induction right generalizing left with
  | nil => exact Option.merge_none_right.symm
  | cons entry right ih =>
    rw [keys_cons, List.nodup_cons] at hright
    rw [List.foldl_cons, ih hright.2, lookup_add, List.lookup_cons]
    by_cases same : key = entry.1
    · rw [if_pos same, same, beq_self_eq_true, lookup_eq_none.mpr hright.1, Option.merge_none_right]
    · rw [if_neg same, beq_false_of_ne same, Option.merge_none_right]

omit [LinearOrder κ] in
/-- What is found does not depend on the order. -/
theorem lookup_perm {other : List (κ × α)} (perm : dict.Perm other)
    (h : (keys dict).Nodup) (key : κ) :
    dict.lookup key = other.lookup key := by
  have hother : (keys other).Nodup := (perm.map Prod.fst).nodup_iff.mp h
  apply Option.ext
  intro value
  constructor
  · exact fun found => lookup_of_mem hother (perm.mem_iff.mp (mem_of_lookup found))
  · exact fun found => lookup_of_mem h (perm.mem_iff.mpr (mem_of_lookup found))

omit [DecidableEq κ] in
/-- Sorting sorts. -/
theorem sorted_insertionSort (h : (keys dict).Nodup) :
    Sorted (dict.insertionSort fun a b => a.1 ≤ b.1) := by
  have perm := List.perm_insertionSort (fun a b : κ × α => a.1 ≤ b.1) dict
  have distinct : (keys (dict.insertionSort fun a b => a.1 ≤ b.1)).Nodup :=
    (perm.map Prod.fst).nodup_iff.mpr h
  have ordered : (keys (dict.insertionSort fun a b => a.1 ≤ b.1)).Pairwise (· ≤ ·) :=
    List.pairwise_map.mpr (List.pairwise_insertionSort (fun a b : κ × α => a.1 ≤ b.1) dict)
  exact (ordered.and distinct).imp fun both => lt_of_le_of_ne both.1 both.2

/-- A merge is sorted. -/
theorem sorted_merge (hleft : Sorted left) (right : List (κ × α)) : Sorted (merge op left right) := by
  unfold merge
  split
  · exact hleft
  · exact sorted_insertionSort (nodup_foldl_add hleft.nodup right)

/-- What is found in a merge. -/
theorem lookup_merge (hleft : Sorted left) (hright : Sorted right) (key : κ) :
    (merge op left right).lookup key = Option.merge op (left.lookup key) (right.lookup key) := by
  unfold merge
  split
  case isTrue empty => rw [empty, List.lookup_nil, Option.merge_none_right]
  case isFalse =>
    rw [← lookup_foldl_add hright.nodup, ← lookup_perm (List.perm_insertionSort _ _).symm
      (nodup_foldl_add hleft.nodup right)]

/-- An ordered dictionary is determined by its values. -/
theorem Sorted.ext (hleft : Sorted left) (hright : Sorted right)
    (same : ∀ key, left.lookup key = right.lookup key) : left = right := by
  have mem : ∀ entry, entry ∈ left ↔ entry ∈ right := by
    intro entry
    constructor
    · exact fun h => mem_of_lookup (same entry.1 ▸ lookup_of_mem hleft.nodup h)
    · exact fun h => mem_of_lookup (same entry.1 ▸ lookup_of_mem hright.nodup h)
  have perm : left.Perm right :=
    (List.perm_ext_iff_of_nodup (hleft.nodup.of_map _) (hright.nodup.of_map _)).mpr mem
  refine perm.eq_of_pairwise (fun a b _ _ hab hba => absurd (lt_trans hab hba) (lt_irrefl _))
    (List.pairwise_map.mp hleft) (List.pairwise_map.mp hright)

/-! ## The merge on a class of values -/

/-- Ordered, with values of a class. -/
structure Of (P : α → Prop) (dict : List (κ × α)) : Prop where
  sorted : Sorted dict
  values : ∀ key, ∀ value ∈ dict.lookup key, P value

variable {P : α → Prop}

/-- The value of each entry. -/
theorem Of.mem (h : Of P dict) {entry : κ × α} (mem : entry ∈ dict) : P entry.2 :=
  h.values entry.1 entry.2 (lookup_of_mem h.sorted.nodup mem)

/-- A merge keeps the class of the values. -/
theorem Of.merge (closed : ∀ {a b}, P a → P b → P (op a b)) (hleft : Of P left)
    (hright : Of P right) : Of P (merge op left right) := by
  refine ⟨sorted_merge hleft.sorted right, fun key => ?_⟩
  rw [lookup_merge hleft.sorted hright.sorted]
  exact Option.of_merge closed (hleft.values key) (hright.values key)

/-- Dictionaries merge in any order and grouping when their values do. -/
theorem commOn_merge (h : CommOn P op) :
    CommOn (Of P) (Dict.merge op : List (κ × α) → List (κ × α) → List (κ × α)) where
  closed {a b} ha hb := ha.merge h.closed hb
  comm {a b} ha hb := by
    refine (sorted_merge ha.sorted b).ext (sorted_merge hb.sorted a) fun key => ?_
    rw [lookup_merge ha.sorted hb.sorted, lookup_merge hb.sorted ha.sorted]
    exact h.merge.comm (ha.values key) (hb.values key)
  assoc {a b c} ha hb hc := by
    have hab : Sorted (merge op a b) := sorted_merge ha.sorted b
    have hbc : Sorted (merge op b c) := sorted_merge hb.sorted c
    refine (sorted_merge hab c).ext (sorted_merge ha.sorted _) fun key => ?_
    rw [lookup_merge hab hc.sorted, lookup_merge ha.sorted hb.sorted, lookup_merge ha.sorted hbc,
      lookup_merge hb.sorted hc.sorted]
    exact h.merge.assoc (ha.values key) (hb.values key) (hc.values key)

/-! ## Sums over the values -/

variable {Q : β → Prop} {op' : β → β → β} {f : α → β}

/-- The sum of a measure over the values. -/
def total (op' : β → β → β) (f : α → β) (dict : List (κ × α)) : Option β :=
  (dict.map fun entry => f entry.2).sumBy? op'

/-- A measure of the values that turns their operation into that of the measures. -/
structure Measure (P : α → Prop) (op : α → α → α) (Q : β → Prop) (op' : β → β → β) (f : α → β) :
    Prop where
  closed {a b : α} : P a → P b → P (op a b)
  measures : CommOn Q op'
  maps {a : α} : P a → Q (f a)
  map_op {a b : α} : P a → P b → f (op a b) = op' (f a) (f b)

namespace Measure

variable {entry : κ × α}

omit [LinearOrder κ] [DecidableEq κ] in
/-- The total of such values is one. -/
theorem mem_total (h : Measure P op Q op' f) (values : ∀ entry ∈ dict, P entry.2) :
    ∀ sum ∈ total op' f dict, Q sum := by
  refine fun sum => h.measures.of_sumBy? fun b mem => ?_
  obtain ⟨entry, here, rfl⟩ := List.mem_map.mp mem
  exact h.maps (values entry here)

omit [LinearOrder κ] [DecidableEq κ] in
/-- The total does not depend on the order. -/
theorem total_perm (h : Measure P op Q op' f) {other : List (κ × α)} (perm : dict.Perm other)
    (values : ∀ entry ∈ dict, P entry.2) : total op' f dict = total op' f other := by
  refine h.measures.sumBy?_perm (perm.map _) fun b mem => ?_
  obtain ⟨entry, here, rfl⟩ := List.mem_map.mp mem
  exact h.maps (values entry here)

omit [LinearOrder κ] [DecidableEq κ] in
/-- The total of a first entry and the others. -/
theorem total_cons (h : Measure P op Q op' f) (value : P entry.2)
    (values : ∀ other ∈ dict, P other.2) :
    total op' f (entry :: dict) = Option.merge op' (some (f entry.2)) (total op' f dict) := by
  refine h.measures.sumBy?_cons (h.maps value) fun b mem => ?_
  obtain ⟨other, here, rfl⟩ := List.mem_map.mp mem
  exact h.maps (values other here)

omit [LinearOrder κ] [DecidableEq κ] in
/-- The measure of a value. -/
theorem mem_some (h : Measure P op Q op' f) {a : α} (ha : P a) : ∀ x ∈ some (f a), Q x := by
  rintro _ ⟨⟩
  exact h.maps ha

omit [LinearOrder κ] in
/-- Adding such a value keeps the values such. -/
theorem add_values (h : Measure P op Q op' f) (values : ∀ other ∈ dict, P other.2)
    (value : P entry.2) : ∀ other ∈ add op dict entry, P other.2 := by
  intro other mem
  unfold add at mem
  rcases mem_set mem with rfl | mem
  · rcases found : dict.lookup entry.1 with _ | previous
    · exact value
    · exact h.closed (values _ (mem_of_lookup found)) value
  · exact values other mem

omit [LinearOrder κ] in
/-- The total after an entry was added. -/
theorem total_add (h : Measure P op Q op' f) (distinct : (keys dict).Nodup)
    (values : ∀ other ∈ dict, P other.2) (value : P entry.2) :
    total op' f (add op dict entry) = Option.merge op' (total op' f dict) (some (f entry.2)) := by
  have added := h.add_values values value
  unfold add at added ⊢
  rcases found : dict.lookup entry.1 with _ | previous
  · rw [found] at added
    dsimp only at added ⊢
    rw [set_of_notMem (lookup_eq_none.mp found)] at added ⊢
    rw [h.total_perm List.perm_append_comm added, List.singleton_append, h.total_cons value values]
    exact h.measures.merge.comm (h.mem_some value) (h.mem_total values)
  · rw [found] at added
    dsimp only at added ⊢
    have known : P previous := values _ (mem_of_lookup found)
    have others : ∀ other ∈ erase entry.1 dict, P other.2 := fun other mem =>
      values other (List.mem_of_mem_filter mem)
    have rest := h.mem_total others
    -- The entry is taken out in front of the others, before and after it is set.
    rw [h.total_perm (perm_set _ distinct found) added,
      h.total_cons (h.closed known value) others,
      h.total_perm (perm_erase distinct found) values, h.total_cons known others]
    rw [h.measures.merge.assoc (h.mem_some known) rest (h.mem_some value),
      h.measures.merge.comm rest (h.mem_some value),
      ← h.measures.merge.assoc (h.mem_some known) (h.mem_some value) rest, Option.merge_some_some,
      h.map_op known value]

/-- The total of a merge is the sum of the totals. -/
theorem total_merge (h : Measure P op Q op' f) (hleft : Of P left) (hright : Of P right) :
    total op' f (merge op left right) =
      Option.merge op' (total op' f left) (total op' f right) := by
  have fold : ∀ {right dict : List (κ × α)}, (keys dict).Nodup → (∀ other ∈ dict, P other.2) →
      (∀ other ∈ right, P other.2) → (∀ other ∈ right.foldl (Dict.add op) dict, P other.2) ∧
        total op' f (right.foldl (Dict.add op) dict) =
          Option.merge op' (total op' f dict) (total op' f right) := by
    intro right
    induction right with
    | nil => exact fun _ values _ => ⟨values, Option.merge_none_right.symm⟩
    | cons entry right ih =>
      intro dict distinct values value
      rw [List.forall_mem_cons] at value
      obtain ⟨added, sum⟩ := ih (nodup_add distinct entry) (h.add_values values value.1) value.2
      refine ⟨added, ?_⟩
      rw [List.foldl_cons, sum, h.total_add distinct values value.1, h.total_cons value.1 value.2]
      exact h.measures.merge.assoc (h.mem_total values) (h.mem_some value.1) (h.mem_total value.2)
  unfold merge
  split
  case isTrue empty =>
    rw [empty]
    exact Option.merge_none_right.symm
  case isFalse =>
    obtain ⟨values, sum⟩ := fold hleft.sorted.nodup (fun _ => hleft.mem) fun _ => hright.mem
    rw [← sum]
    exact (h.total_perm (List.perm_insertionSort _ _).symm values).symm

end Measure

end Dict
