import Mathlib.Algebra.BigOperators.Group.Finset.Basic
import Mathlib.Algebra.GroupWithZero.Nat

/-!
# Counts by a key

The counts of the entries with each key of a catalog add up to the count of all entries whose key is in
the catalog: none is lost, and none is counted twice.
-/

namespace Tally

variable {α κ : Type*}

section Sums

variable [DecidableEq κ]

/-- The entries of a kind, counted by their keys. -/
theorem sum_countP {keys : List κ} (distinct : keys.Nodup) (p : α → Bool) (key : α → κ)
    {entries : List α} (known : ∀ entry ∈ entries, p entry = true → key entry ∈ keys) :
    (keys.map fun own => entries.countP fun entry => p entry && key entry = own).sum =
      entries.countP p := by
  -- the keys of the counted entries, as a multiset over the catalog
  have count (own : κ) : entries.countP (fun entry => p entry && key entry = own) =
      Multiset.count own ((entries.filter p).map key : List κ) := by
    rw [Multiset.coe_count, List.count, List.countP_map, List.countP_filter]
    refine List.countP_congr fun entry _ => ?_
    simp [and_comm]
  have among : ∀ own ∈ (((entries.filter p).map key : List κ) : Multiset κ), own ∈ keys.toFinset := by
    intro own mem
    obtain ⟨entry, kept, rfl⟩ := List.mem_map.mp (Multiset.mem_coe.mp mem)
    obtain ⟨inside, counted⟩ := List.mem_filter.mp kept
    exact List.mem_toFinset.mpr (known entry inside counted)
  calc (keys.map fun own => entries.countP fun entry => p entry && key entry = own).sum
      = (keys.map fun own => Multiset.count own ((entries.filter p).map key : List κ)).sum := by
        simp only [count]
    _ = ∑ own ∈ keys.toFinset, Multiset.count own ((entries.filter p).map key : List κ) :=
        (List.sum_toFinset _ distinct).symm
    _ = Multiset.card (((entries.filter p).map key : List κ) : Multiset κ) :=
        Multiset.sum_count_eq_card among
    _ = entries.countP p := by
        rw [Multiset.coe_card, List.length_map, List.countP_eq_length_filter]

/-- All entries, counted by their keys. -/
theorem sum_countP_key {keys : List κ} (distinct : keys.Nodup) (key : α → κ) {entries : List α}
    (known : ∀ entry ∈ entries, key entry ∈ keys) :
    (keys.map fun own => entries.countP fun entry => key entry = own).sum = entries.length := by
  have all := sum_countP distinct (fun _ => true) key (fun entry mem _ => known entry mem)
  rw [List.countP_true] at all
  simpa using all

end Sums

/-- Of several parts with distinct keys, one alone has entries of a kind. -/
theorem countP_flatMap {ρ : Type*} {key : ρ → κ} {parts : List ρ} (distinct : (parts.map key).Nodup)
    {p : α → Bool} {entries : ρ → List α} {part : ρ} (mem : part ∈ parts)
    (only : ∀ other ∈ parts, ∀ entry ∈ entries other, p entry = true → key other = key part) :
    (parts.flatMap entries).countP p = (entries part).countP p := by
  induction parts with
  | nil => cases mem
  | cons first rest ih =>
    obtain ⟨fresh, distinct⟩ := List.nodup_cons.mp distinct
    obtain ⟨onlyFirst, onlyRest⟩ := List.forall_mem_cons.mp only
    rw [List.flatMap_cons, List.countP_append]
    rcases List.mem_cons.mp mem with rfl | later
    · have others : (rest.flatMap entries).countP p = 0 := by
        refine List.countP_eq_zero.mpr fun entry inside counted => ?_
        obtain ⟨other, otherMem, own⟩ := List.mem_flatMap.mp inside
        exact fresh (onlyRest other otherMem entry own counted ▸ List.mem_map_of_mem otherMem)
      omega
    · have none : (entries first).countP p = 0 := by
        refine List.countP_eq_zero.mpr fun entry own counted => ?_
        exact fresh (onlyFirst entry own counted ▸ List.mem_map_of_mem later)
      rw [none, Nat.zero_add, ih distinct later onlyRest]

end Tally
