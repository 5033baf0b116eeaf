import Mathlib.Algebra.Order.Field.Rat
import Mathlib.Algebra.Order.Field.Power
import Foliqant.Common.JsonRoundTrip
import Foliqant.Core.Json

/-!
# Floats of the interpreter

JSON values as the interpreter holds them have finite binary64 floats. Its comparisons and its rounding
to integers depend on the number of a float only, where the sign of a zero is lost.
-/

namespace Foliqant.Core

open JsonText

/-- A finite binary64 number; a zero keeps its sign. -/
structure Double where
  negative : Bool
  significand : ℕ
  exponent : ℤ
  significand_lt : significand < 2 ^ 53
  lower : -1074 ≤ exponent
  upper : exponent ≤ 971

/-- The number that a float stands for. -/
def Double.value (x : Double) : ℚ :=
  (if x.negative then -1 else 1) * x.significand * (2 : ℚ) ^ x.exponent

/-- A finite double stays below the first power of two it cannot reach. -/
theorem Double.value_bound (x : Double) : |x.value| < 2 ^ 1024 := by
  have sign : |(if x.negative then -1 else 1 : ℚ)| = 1 := by split <;> simp
  have small : (x.significand : ℚ) < 2 ^ 53 := mod_cast x.significand_lt
  have upper : x.exponent ≤ (971 : ℕ) := x.upper
  have power := zpow_le_zpow_right₀ (one_le_two : (1 : ℚ) ≤ 2) upper
  rw [zpow_natCast] at power
  have positive : (0 : ℚ) < 2 ^ x.exponent := zpow_pos (by norm_num) _
  rw [Double.value, abs_mul, abs_mul, sign, one_mul, abs_of_nonneg (Nat.cast_nonneg _),
    abs_of_pos positive]
  calc (x.significand : ℚ) * 2 ^ x.exponent < 2 ^ 53 * 2 ^ x.exponent := by gcongr
    _ ≤ 2 ^ 53 * 2 ^ 971 := mul_le_mul_of_nonneg_left power (pow_nonneg zero_le_two _)
    _ = 2 ^ 1024 := (pow_add 2 53 971).symm

/-- JSON values as the interpreter holds them. -/
abbrev PyJson := Value Double

mutual

/-- A value as comparisons see it. -/
def PyJson.numeric : PyJson → Json
  | .null => .null
  | .bool b => .bool b
  | .int n => .int n
  | .float x => .float x.value
  | .str text => .str text
  | .arr items => .arr (numericItems items)
  | .obj members => .obj (numericMembers members)

/-- The items of a list, their floats as numbers. -/
def numericItems : List PyJson → List Json
  | [] => []
  | item :: rest => PyJson.numeric item :: numericItems rest

/-- The members of an object, their floats as numbers. -/
def numericMembers : List (String × PyJson) → Object
  | [] => []
  | (key, value) :: rest => (key, PyJson.numeric value) :: numericMembers rest

end

/-- The keys stay as they are. -/
theorem keys_numericMembers (members : List (String × PyJson)) :
    (numericMembers members).map Prod.fst = members.map Prod.fst := by
  induction members with
  | nil => rfl
  | cons member rest ih => exact congrArg _ ih

mutual

/-- The keys of every object still differ. -/
theorem numeric_distinct : (value : PyJson) → value.Distinct → (PyJson.numeric value).Distinct
  | .null, _ | .bool _, _ | .int _, _ | .float _, _ | .str _, _ => trivial
  | .arr items, distinct => numericItems_distinct items distinct
  | .obj members, distinct => by
      refine ⟨?_, numericMembers_distinct members distinct.2⟩
      rw [keys_numericMembers]
      exact distinct.1

/-- So do distinct keys within items. -/
theorem numericItems_distinct : (items : List PyJson) → ItemsDistinct items →
    ItemsDistinct (numericItems items)
  | [], _ => trivial
  | item :: rest, distinct => ⟨numeric_distinct item distinct.1,
      numericItems_distinct rest distinct.2⟩

/-- And within members. -/
theorem numericMembers_distinct : (members : List (String × PyJson)) → MembersDistinct members →
    MembersDistinct (numericMembers members)
  | [], _ => trivial
  | (_, value) :: rest, distinct =>
      ⟨numeric_distinct value distinct.1, numericMembers_distinct rest distinct.2⟩

end

end Foliqant.Core
