import Foliqant.Common.Dict

/-!
# Filters by key

A dictionary is reduced to the entries that pass a list of rules, one key and a test of its value each.
The result depends on the passing entries only, and to filter it again changes nothing.
-/

namespace KeyedFilter

variable {κ α : Type*} [DecidableEq κ]

/-- A key and which values pass under it. -/
structure Rule (κ α : Type*) where
  key : κ
  passes : α → Bool

/-- The value under the key of a rule, if it passes. -/
def Rule.value (rule : Rule κ α) (entries : List (κ × α)) : Option α :=
  (entries.lookup rule.key).filter rule.passes

/-- The entries the rules keep, in the order of the rules. -/
def sanitize (rules : List (Rule κ α)) (entries : List (κ × α)) : List (κ × α) :=
  rules.filterMap fun rule => (rule.value entries).map fun value => (rule.key, value)

/-- A rule keeps the entry under its key when that value passes. -/
theorem Rule.value_eq_some {rule : Rule κ α} {entries : List (κ × α)} {value : α} :
    rule.value entries = some value ↔
      entries.lookup rule.key = some value ∧ rule.passes value = true :=
  Option.filter_eq_some_iff

/-- Only the passing values of its key matter to a rule. -/
theorem Rule.value_congr {rule : Rule κ α} {entries entries' : List (κ × α)}
    (same : ∀ value, rule.passes value = true →
      (entries.lookup rule.key = some value ↔ entries'.lookup rule.key = some value)) :
    rule.value entries = rule.value entries' := by
  refine Option.ext fun value => ?_
  rw [Rule.value_eq_some, Rule.value_eq_some]
  exact and_congr_left (same value)

/-- The filter sees an entry list only through its rules. -/
theorem sanitize_congr {rules : List (Rule κ α)} {entries entries' : List (κ × α)}
    (same : ∀ rule ∈ rules, rule.value entries = rule.value entries') :
    sanitize rules entries = sanitize rules entries' :=
  List.filterMap_congr fun rule mem => by rw [same rule mem]

/-- A key without a rule is dropped. -/
theorem lookup_sanitize_none {rules : List (Rule κ α)} {key : κ} (entries : List (κ × α))
    (unruled : key ∉ rules.map Rule.key) : (sanitize rules entries).lookup key = none := by
  refine Dict.lookup_eq_none.mpr fun mem => unruled ?_
  obtain ⟨entry, kept, rfl⟩ := List.mem_map.mp mem
  obtain ⟨rule, ruled, own⟩ := List.mem_filterMap.mp kept
  obtain ⟨value, -, rfl⟩ := Option.map_eq_some_iff.mp own
  exact List.mem_map_of_mem ruled

/-- A key with one rule keeps its value if that passes. -/
theorem lookup_sanitize {rules : List (Rule κ α)} (distinct : (rules.map Rule.key).Nodup)
    {rule : Rule κ α} (mem : rule ∈ rules) (entries : List (κ × α)) :
    (sanitize rules entries).lookup rule.key = rule.value entries := by
  induction rules with
  | nil => cases mem
  | cons first rest ih =>
    obtain ⟨fresh, distinct⟩ := List.nodup_cons.mp distinct
    rcases List.mem_cons.mp mem with rfl | later
    · rcases kept : rule.value entries with _ | value
      · rw [sanitize, List.filterMap_cons_none (by rw [kept]; rfl)]
        exact lookup_sanitize_none entries fresh
      · rw [sanitize, List.filterMap_cons_some (by rw [kept]; rfl), List.lookup_cons_self]
    · have other : rule.key ≠ first.key := fun same => fresh (same ▸ List.mem_map_of_mem later)
      rcases kept : first.value entries with _ | value
      · rw [sanitize, List.filterMap_cons_none (by rw [kept]; rfl)]
        exact ih distinct later
      · rw [sanitize, List.filterMap_cons_some (by rw [kept]; rfl), List.lookup_cons,
          beq_eq_false_iff_ne.mpr other]
        exact ih distinct later

/-- Filtering twice is filtering once. -/
theorem sanitize_sanitize {rules : List (Rule κ α)} (distinct : (rules.map Rule.key).Nodup)
    (entries : List (κ × α)) : sanitize rules (sanitize rules entries) = sanitize rules entries := by
  refine sanitize_congr fun rule mem => ?_
  rw [Rule.value, lookup_sanitize distinct mem, Rule.value, Option.filter_filter]
  simp only [Bool.and_self]

end KeyedFilter
