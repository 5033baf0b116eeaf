import Mathlib.Data.List.Basic
import Mathlib.Order.Basic

/-!
# Occurrences in a text

The first occurrence of a pattern between two bounds, and a loop that steps through the occurrences,
overlapping ones included, until one is accepted.
-/

namespace TextSearch

variable {α : Type} [DecidableEq α]

/-- The pattern is read at a position of the text. -/
def Occurs (text pattern : List α) (position : ℕ) : Prop := pattern <+: text.drop position

instance (text pattern : List α) (position : ℕ) : Decidable (Occurs text pattern position) :=
  inferInstanceAs (Decidable (pattern <+: text.drop position))

/-- The first position from `start` on where the pattern occurs and ends at `stop` or before. -/
def find (text pattern : List α) (start stop : ℕ) : Option ℕ :=
  (List.range' start (stop + 1 - start)).find? fun position =>
    decide (Occurs text pattern position ∧ position + pattern.length ≤ stop)

variable {text pattern : List α} {start stop position : ℕ}

/-- A found position is the first occurrence that ends within the range. -/
theorem find_eq_some : find text pattern start stop = some position ↔
    (start ≤ position ∧ Occurs text pattern position ∧ position + pattern.length ≤ stop) ∧
      ∀ earlier, start ≤ earlier → earlier < position → Occurs text pattern earlier →
        stop < earlier + pattern.length := by
  unfold find
  rw [List.find?_range'_eq_some]
  simp only [decide_eq_true_eq, List.mem_range'_1, Bool.not_eq_true',
      decide_eq_false_iff_not, not_and,
    Nat.not_le]
  constructor
  · rintro ⟨⟨occurs, ends⟩, ⟨from_, -⟩, first⟩
    exact ⟨⟨from_, occurs, ends⟩, first⟩
  · rintro ⟨⟨from_, occurs, ends⟩, first⟩
    refine ⟨⟨occurs, ends⟩, ⟨from_, ?_⟩, first⟩
    omega

/-- Nothing is found exactly when no occurrence ends within the range. -/
theorem find_eq_none : find text pattern start stop = none ↔
    ∀ position, start ≤ position → Occurs text pattern position →
      stop < position + pattern.length := by
  unfold find
  rw [List.find?_eq_none]
  simp only [decide_eq_true_eq, List.mem_range'_1, not_and, Nat.not_le]
  constructor
  · intro none position from_ occurs
    by_contra ends
    refine absurd (none position ⟨from_, ?_⟩ occurs) ends
    omega
  · intro none position inside occurs
    exact none position inside.1 occurs

/-- Step through the occurrences from `start` on until one is accepted; each search begins right
behind the start of the last occurrence. -/
def search (text pattern : List α) (accept : ℕ → Bool) (stop start : ℕ) : Bool :=
  match _found : find text pattern start stop with
  | none => false
  | some occurrence =>
      if accept occurrence then true else search text pattern accept stop (occurrence + 1)
termination_by stop + 1 - start
decreasing_by
  have bounds := (find_eq_some.mp _found).1
  omega

/-- A search ends when there is no further occurrence. -/
theorem search_of_none {accept : ℕ → Bool} (none : find text pattern start stop = none) :
    search text pattern accept stop start = false := by
  rw [search]
  split
  · rfl
  · simp_all

/-- A search accepts the next occurrence or goes on after it. -/
theorem search_of_some {accept : ℕ → Bool} (some : find text pattern start stop = some position) :
    search text pattern accept stop start =
      if accept position then true else search text pattern accept stop (position + 1) := by
  rw [search]
  split
  · simp_all
  · simp_all

/-- The loop misses no occurrence. -/
theorem search_iff {accept : ℕ → Bool} : search text pattern accept stop start = true ↔
    ∃ position, start ≤ position ∧ Occurs text pattern position ∧ position + pattern.length ≤ stop ∧
      accept position = true := by
  induction start using search.induct text pattern accept stop with
  | case1 start none =>
    rw [search_of_none none]
    refine iff_of_false Bool.false_ne_true ?_
    rintro ⟨position, from_, occurs, ends, -⟩
    have late := find_eq_none.mp none position from_ occurs
    omega
  | case2 start occurrence found accepted =>
    rw [search_of_some found, if_pos accepted]
    have first := (find_eq_some.mp found).1
    exact iff_of_true rfl ⟨occurrence, first.1, first.2.1, first.2.2, accepted⟩
  | case3 start occurrence found rejected ih =>
    rw [search_of_some found, if_neg rejected, ih]
    obtain ⟨first, earliest⟩ := find_eq_some.mp found
    constructor
    · rintro ⟨position, from_, rest⟩
      refine ⟨position, ?_, rest⟩
      omega
    · rintro ⟨position, from_, occurs, ends, accepted⟩
      refine ⟨position, ?_, occurs, ends, accepted⟩
      -- Nothing occurs before the first occurrence, and that one was rejected.
      have late : occurrence ≤ position := by
        by_contra earlier
        have := earliest position from_ (by omega) occurs
        omega
      have other : position ≠ occurrence := by
        rintro rfl
        exact rejected accepted
      omega

end TextSearch
