import Mathlib.Algebra.Order.Archimedean.Basic
import Mathlib.Algebra.Order.Field.Power
import Mathlib.Algebra.Order.Floor.Ring
import Mathlib.Data.Int.Log
import Mathlib.Data.Rat.Floor
import Mathlib.Tactic.Linarith
import Mathlib.Tactic.Positivity
import Mathlib.Tactic.Ring
import Foliqant.Common.Fallible

/-!
# Decimal arithmetic with a context

Every operation has its exact result rounded to a number of significant digits, half to even, within a
range of exponents. A result that rounding changes sets the inexact flag of the context, and one above
the range is trapped. A computation is exact when it ends with the flag unset; this is the case when
every result on the way fits the context.
-/

namespace Decimal

/-- The nearest integer, a tie to the even one. -/
def roundHalfEven (x : ℚ) : ℤ :=
  let whole := ⌊x⌋
  if x - whole < 1 / 2 then whole
  else if 1 / 2 < x - whole then whole + 1
  else whole + whole % 2

/-- An integer is rounded to itself. -/
@[simp] theorem roundHalfEven_intCast (n : ℤ) : roundHalfEven n = n := by
  simp [roundHalfEven]

/-- A number that is not negative rounds to one that is not negative. -/
theorem roundHalfEven_nonneg {x : ℚ} (h : 0 ≤ x) : 0 ≤ roundHalfEven x := by
  have whole : 0 ≤ ⌊x⌋ := Int.floor_nonneg.mpr h
  unfold roundHalfEven
  dsimp only
  split
  · exact whole
  · split <;> omega

/-- Significant digits, and the exponents of the first digit. -/
structure Context where
  prec : ℕ
  emin : ℤ
  emax : ℤ

namespace Context

variable (ctx : Context)

/-- The exponent of the last digit of the smallest numbers. -/
def etiny : ℤ := ctx.emin - (ctx.prec - 1)

/-- The exponent of the last digit that a result keeps. -/
def exponent (x : ℚ) : ℤ := max (Int.log 10 |x| - (ctx.prec - 1)) ctx.etiny

/-- The nearest number of the context. -/
def round (x : ℚ) : ℚ := roundHalfEven (x / 10 ^ ctx.exponent x) * 10 ^ ctx.exponent x

/-- A number that is not negative rounds to one that is not negative. -/
theorem round_nonneg (ctx : Context) {x : ℚ} (h : 0 ≤ x) : 0 ≤ ctx.round x := by
  have scale : (0 : ℚ) ≤ 10 ^ ctx.exponent x := by positivity
  exact mul_nonneg (Int.cast_nonneg (roundHalfEven_nonneg (div_nonneg h scale))) scale

/-- A number with the digits and the exponents of the context. -/
def Fits (x : ℚ) : Prop :=
  (∃ c e : ℤ, |c| < 10 ^ ctx.prec ∧ ctx.etiny ≤ e ∧ x = c * 10 ^ e) ∧ |x| < 10 ^ (ctx.emax + 1)

variable {ctx}

/-- A number of the context has few digits. -/
theorem lt_of_scaled {x : ℚ} {c : ℤ} (scaled : x = c * 10 ^ ctx.exponent x) :
    |c| < 10 ^ ctx.prec := by
  have ten : (0 : ℚ) < 10 ^ ctx.exponent x := by positivity
  have bound : |x| < 10 ^ (Int.log 10 |x| + 1) := by
    simpa using Int.lt_zpow_succ_log_self (b := 10) (by norm_num) |x|
  have digits : (10 : ℚ) ^ (Int.log 10 |x| + 1) ≤ 10 ^ ctx.prec * 10 ^ ctx.exponent x := by
    rw [← zpow_natCast (10 : ℚ) ctx.prec, ← zpow_add₀ (by norm_num)]
    apply zpow_le_zpow_right₀ (by norm_num)
    have := le_max_left (Int.log 10 |x| - (ctx.prec - 1)) ctx.etiny
    unfold exponent
    omega
  have size : |x| = |(c : ℚ)| * 10 ^ ctx.exponent x := by
    conv_lhs => rw [scaled]
    rw [abs_mul, abs_of_pos ten]
  have scaledUp : |(c : ℚ)| * 10 ^ ctx.exponent x < 10 ^ ctx.prec * 10 ^ ctx.exponent x :=
    calc |(c : ℚ)| * 10 ^ ctx.exponent x = |x| := size.symm
      _ < 10 ^ (Int.log 10 |x| + 1) := bound
      _ ≤ 10 ^ ctx.prec * 10 ^ ctx.exponent x := digits
  exact_mod_cast lt_of_mul_lt_mul_right scaledUp ten.le

/-- A number of few digits is a multiple of the last digit that a result keeps. -/
theorem exists_scaled {x : ℚ} {c e : ℤ} (digits : |c| < 10 ^ ctx.prec) (least : ctx.etiny ≤ e)
    (value : x = c * 10 ^ e) : ∃ n : ℤ, x / 10 ^ ctx.exponent x = n := by
  rcases eq_or_ne x 0 with rfl | nonzero
  · exact ⟨0, by simp⟩
  have le : ctx.exponent x ≤ e := by
    refine max_le ?_ least
    have positive : 0 < |x| := abs_pos.mpr nonzero
    have bound : |x| < 10 ^ (ctx.prec + e) := by
      rw [value, abs_mul, abs_of_pos (by positivity : (0 : ℚ) < 10 ^ e), zpow_add₀ (by norm_num),
        zpow_natCast]
      refine mul_lt_mul_of_pos_right ?_ (by positivity)
      exact_mod_cast digits
    have := (Int.lt_zpow_iff_log_lt (b := 10) (by norm_num) positive).mp (by simpa using bound)
    omega
  refine ⟨c * 10 ^ (e - ctx.exponent x).toNat, ?_⟩
  have rest : (10 : ℚ) ^ e = 10 ^ (e - ctx.exponent x).toNat * 10 ^ ctx.exponent x := by
    rw [← zpow_natCast (10 : ℚ), ← zpow_add₀ (by norm_num), Int.toNat_of_nonneg (by omega)]
    congr 1
    omega
  rw [div_eq_iff (by positivity)]
  conv_lhs => rw [value, rest]
  push_cast
  ring

/-- The numbers that are rounded to themselves. -/
theorem round_eq_iff {x : ℚ} :
    ctx.round x = x ↔ ∃ c e : ℤ, |c| < 10 ^ ctx.prec ∧ ctx.etiny ≤ e ∧ x = c * 10 ^ e := by
  constructor
  · intro same
    have scaled : x = roundHalfEven (x / 10 ^ ctx.exponent x) * 10 ^ ctx.exponent x := same.symm
    exact ⟨_, _, lt_of_scaled scaled, le_max_right _ _, scaled⟩
  · rintro ⟨c, e, digits, least, value⟩
    obtain ⟨n, whole⟩ := exists_scaled digits least value
    rw [round, whole, roundHalfEven_intCast, ← whole, div_mul_cancel₀]
    positivity

end Context

/-! ## Computations -/

/-- A computation with the inexact flag of the context, and errors of a program. -/
abbrev Arith (ε α : Type) := StateT Bool (Except ε) α

/-- Round the exact result of an operation; `overflow` is what the trap raises. -/
def Context.settle {ε : Type} (ctx : Context) (overflow : ε) (x : ℚ) : Arith ε ℚ := fun inexact =>
  if 10 ^ (ctx.emax + 1) ≤ |ctx.round x| then .error overflow
  else .ok (ctx.round x, inexact || decide (ctx.round x ≠ x))

/-- A computation that starts with the flag unset ends with it unset: no operation rounded. -/
def Exactly {ε α : Type} (m : Arith ε α) (a : α) : Prop := m.run false = .ok (a, false)

/-- A flag that is set stays set. -/
def Sticky {ε α : Type} (m : Arith ε α) : Prop := ∀ a, m.run true ≠ .ok (a, false)

variable {ε α β : Type} {m : Arith ε α} {f : α → Arith ε β}

/-- A value. -/
theorem sticky_pure (a : α) : Sticky (pure a : Arith ε α) := by
  intro b same
  exact absurd (Prod.mk.inj (Except.ok.inj same)).2 Bool.noConfusion

/-- A computation without rounding. -/
theorem sticky_liftM (x : Except ε α) : Sticky (liftM x : Arith ε α) := by
  intro b
  rcases x with e | a <;>
    simp [StateT.run, liftM, monadLift, MonadLift.monadLift, StateT.lift, bind, Except.bind, pure,
      Except.pure]

/-- A rounding. -/
theorem sticky_settle (ctx : Context) (overflow : ε) (x : ℚ) : Sticky (ctx.settle overflow x) := by
  intro y
  simp only [StateT.run, Context.settle]
  split <;> simp

/-- A computation and what follows it. -/
theorem run_bind_eq_ok {flag flag' : Bool} {b : β} :
    (m >>= f).run flag = .ok (b, flag') ↔
      ∃ a middle, m.run flag = .ok (a, middle) ∧ (f a).run middle = .ok (b, flag') := by
  show (m flag >>= fun p => f p.1 p.2) = _ ↔ _
  rw [Except.bind_eq_ok]
  exact Prod.exists

/-- A computation and what follows it. -/
theorem Sticky.bind (hm : Sticky m) (hf : ∀ a, Sticky (f a)) : Sticky (m >>= f) := by
  intro b ran
  obtain ⟨a, middle, first, rest⟩ := run_bind_eq_ok.mp ran
  rcases middle with _ | _
  · exact hm a first
  · exact hf a b rest

/-- A sequence is exact when both parts are. -/
theorem exactly_bind (hf : ∀ a, Sticky (f a)) {b : β} :
    Exactly (m >>= f) b ↔ ∃ a, Exactly m a ∧ Exactly (f a) b := by
  unfold Exactly
  rw [run_bind_eq_ok]
  constructor
  · rintro ⟨a, middle, first, rest⟩
    rcases middle with _ | _
    · exact ⟨a, first, rest⟩
    · exact absurd rest (hf a b)
  · rintro ⟨a, first, rest⟩
    exact ⟨a, false, first, rest⟩

/-- A fold. -/
theorem Sticky.foldlM {f : β → α → Arith ε β} (hf : ∀ b a, Sticky (f b a)) (as : List α) (b : β) :
    Sticky (as.foldlM f b) := by
  induction as generalizing b with
  | nil => exact sticky_pure b
  | cons a as ih =>
    rw [List.foldlM_cons]
    exact (hf b a).bind ih

/-- A value is exact. -/
theorem exactly_pure {a b : α} : Exactly (pure a : Arith ε α) b ↔ b = a := by
  constructor
  · intro same
    exact (Prod.mk.inj (Except.ok.inj same)).1.symm
  · rintro rfl
    rfl

/-- A computation without rounding is exact. -/
theorem exactly_liftM {x : Except ε α} {a : α} : Exactly (liftM x : Arith ε α) a ↔ x = .ok a := by
  rcases x with e | a' <;>
    simp [Exactly, StateT.run, liftM, monadLift, MonadLift.monadLift, StateT.lift, bind, Except.bind,
      pure, Except.pure]

/-- A rounding is exact on the numbers of the context. -/
theorem exactly_settle {ctx : Context} {overflow : ε} {x y : ℚ} :
    Exactly (ctx.settle overflow x) y ↔ ctx.Fits x ∧ y = x := by
  unfold Exactly StateT.run Context.settle Context.Fits
  rw [← Context.round_eq_iff]
  split
  case isTrue large =>
    simp only [reduceCtorEq, false_iff, not_and]
    rintro ⟨same, bounded⟩
    rw [same] at large
    exact absurd bounded (not_lt.mpr large)
  case isFalse bounded =>
    rw [not_le] at bounded
    simp only [Bool.false_or, Except.ok.injEq, Prod.mk.injEq, decide_eq_false_iff_not, not_not]
    constructor
    · rintro ⟨rfl, same⟩
      rw [same] at bounded ⊢
      exact ⟨⟨rfl, bounded⟩, rfl⟩
    · rintro ⟨⟨same, -⟩, rfl⟩
      exact ⟨same, same⟩

end Decimal
