import Mathlib.Algebra.Field.Rat
import Foliqant.Common.JsonText
import Foliqant.Core.Errors

/-!
# JSON values of the engine

The engine computes with the rational that a finite float stands for, which does not tell the zeros apart.
Operations that never look at a float take values with any floats.
-/

namespace Foliqant.Core

open JsonText

/-- JSON values with exact rational numbers in the place of floats. -/
abbrev Json := Value ℚ

/-- The members of an object. -/
abbrev Object := List (String × Json)

/-- How deep the business values of a run may nest. -/
def MAX_JSON_DEPTH : ℕ := 64

/-- The bound for values with the ledgers of the engine around them. -/
def MAX_EXECUTION_JSON_DEPTH : ℕ := 192

section

variable {F : Type}

mutual

/-- The level of the deepest value inside, the root at level 0. -/
def depth : Value F → ℕ
  | .arr items => itemsDepth items
  | .obj members => membersDepth members
  | .null | .bool _ | .int _ | .float _ | .str _ => 0

/-- The level of the deepest value in an array. -/
def itemsDepth : List (Value F) → ℕ
  | [] => 0
  | item :: rest => max (depth item + 1) (itemsDepth rest)

/-- The level of the deepest value in an object. -/
def membersDepth : List (String × Value F) → ℕ
  | [] => 0
  | (_, value) :: rest => max (depth value + 1) (membersDepth rest)

end

/-- Accept a value that does not nest too deeply. -/
def freezeJson (maxDepth : ℕ) (value : Value F) : Except Exn (Value F) :=
  if depth value > maxDepth then fail .invalidInput else .ok value

/-- Freezing returns the value itself when it nests within the limit. -/
theorem freezeJson_eq_ok {maxDepth : ℕ} {value frozen : Value F} :
    freezeJson maxDepth value = .ok frozen ↔ depth value ≤ maxDepth ∧ value = frozen := by
  unfold freezeJson fail
  by_cases h : depth value > maxDepth
  · rw [if_pos h]
    simp only [reduceCtorEq, false_iff, not_and]
    omega
  · rw [if_neg h]
    simp only [Except.ok.injEq, iff_and_self]
    omega

end

end Foliqant.Core
