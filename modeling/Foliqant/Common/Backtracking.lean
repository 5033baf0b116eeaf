import Mathlib.Algebra.BigOperators.Group.List.Basic
import Mathlib.Algebra.Order.BigOperators.Group.List
import Mathlib.Tactic.Ring
import Mathlib.Tactic.Linarith

/-!
# Counting the outcomes of a backtracking matcher

A matcher maps a state to the list of states in which it can succeed, in the order a backtracking
engine tries them. A state that can be reached in several ways occurs several times, so the length
of the list is the number of ways to match. The lemmas bound that number for sequencing, for a
fixed number of iterations and for optional iterations.

An optional iteration that does not advance is taken at most once: after it the engine only stops.
This is how engines keep a loop over the empty string from running forever.
-/

namespace Backtracking

variable {σ : Type*}

/-- A matcher: every successful end state, once for each way to reach it. -/
abbrev Matcher (σ : Type*) := σ → List σ

/-- Run `f` exactly `n` times in sequence. -/
def iterate (f : Matcher σ) : ℕ → Matcher σ
  | 0, s => [s]
  | n + 1, s => (f s).flatMap (iterate f n)

/-- Run `f` up to `n` more times, longest first; only an iteration that advances is followed by
another one. -/
def optional (advances : σ → σ → Bool) (f : Matcher σ) : ℕ → Matcher σ
  | 0, s => [s]
  | n + 1, s => (f s).flatMap (fun t => if advances s t then optional advances f n t else [t]) ++ [s]

/-- `optional` with the shortest alternative first. -/
def optionalLazy (advances : σ → σ → Bool) (f : Matcher σ) : ℕ → Matcher σ
  | 0, s => [s]
  | n + 1, s =>
      s :: (f s).flatMap (fun t => if advances s t then optionalLazy advances f n t else [t])

/-- Commit to the first way to match. -/
def commit (f : Matcher σ) : Matcher σ := fun s => (f s).take 1

/-- Run `f` up to `n` more times, each time committing to its first way, and never give back. -/
def greedy (advances : σ → σ → Bool) (f : Matcher σ) : ℕ → σ → σ
  | 0, s => s
  | n + 1, s =>
      match f s with
      | [] => s
      | t :: _ => if advances s t then greedy advances f n t else t

/-- At most one way to match, from every state. -/
def Unique (f : Matcher σ) : Prop := ∀ s, (f s).length ≤ 1

/-- A committed matcher ends in at most one way. -/
theorem commit_unique (f : Matcher σ) : Unique (commit f) := fun s => by
  simp [commit]

/-- Sequencing multiplies the numbers of ways. -/
theorem length_flatMap_le {τ : Type*} {l : List σ} {f : σ → List τ} {a b : ℕ} (hl : l.length ≤ a)
    (hf : ∀ s ∈ l, (f s).length ≤ b) : (l.flatMap f).length ≤ a * b := by
  have hsum : (l.flatMap f).length ≤ l.length * b := by
    rw [List.length_flatMap]
    have h := List.sum_le_card_nsmul (l.map fun s => (f s).length) b (by simpa using hf)
    simpa using h
  exact hsum.trans (Nat.mul_le_mul_right b hl)

/-- A list with at most one element, followed by a matcher bounded on that element. -/
theorem length_flatMap_le_of_unique {τ : Type*} {l : List σ} {f : σ → List τ} {b : ℕ}
    (hl : l.length ≤ 1) (hf : ∀ s ∈ l, (f s).length ≤ b) : (l.flatMap f).length ≤ b := by
  simpa using length_flatMap_le hl hf

/-- `n` iterations of a matcher with at most `b` ways have at most `b ^ n` ways. -/
theorem length_iterate_le {f : Matcher σ} {b : ℕ} (hf : ∀ s, (f s).length ≤ b) (n : ℕ) (s : σ) :
    (iterate f n s).length ≤ b ^ n := by
  induction n generalizing s with
  | zero => simp [iterate]
  | succ n ih =>
    rw [iterate, pow_succ']
    exact length_flatMap_le (hf s) fun t _ => ih t

/-- A unique matcher stays unique under a fixed number of iterations. -/
theorem Unique.iterate {f : Matcher σ} (hf : Unique f) (n : ℕ) : Unique (iterate f n) := fun s => by
  simpa using length_iterate_le hf n s

/-- Up to `n` optional iterations have at most `(n + 1) * b ^ n` ways. -/
theorem length_optional_le {advances : σ → σ → Bool} {f : Matcher σ} {b : ℕ} (hb : 1 ≤ b)
    (hf : ∀ s, (f s).length ≤ b) (n : ℕ) (s : σ) :
    (optional advances f n s).length ≤ (n + 1) * b ^ n := by
  induction n generalizing s with
  | zero => simp [optional]
  | succ n ih =>
    have hpow : 1 ≤ b ^ n := Nat.one_le_pow _ _ hb
    have hnext : ∀ t ∈ f s,
        (if advances s t then optional advances f n t else [t]).length ≤ (n + 1) * b ^ n := by
      intro t _
      split
      · exact ih t
      · calc 1 ≤ 1 * 1 := le_rfl
          _ ≤ (n + 1) * b ^ n := Nat.mul_le_mul (by omega) hpow
    have hmore := length_flatMap_le (hf s) hnext
    rw [optional, List.length_append, List.length_singleton]
    calc _ ≤ b * ((n + 1) * b ^ n) + 1 := by omega
      _ = (n + 1) * b ^ (n + 1) + 1 := by ring
      _ ≤ (n + 1) * b ^ (n + 1) + b ^ (n + 1) := by
        have : 1 ≤ b ^ (n + 1) := Nat.one_le_pow _ _ hb
        omega
      _ = (n + 1 + 1) * b ^ (n + 1) := by ring

/-- Trying the short alternative first changes the order, not the number of ways. -/
theorem optionalLazy_perm (advances : σ → σ → Bool) (f : Matcher σ) (n : ℕ) (s : σ) :
    (optionalLazy advances f n s).Perm (optional advances f n s) := by
  induction n generalizing s with
  | zero => exact List.Perm.refl _
  | succ n ih =>
    rw [optionalLazy, optional]
    refine (List.Perm.cons s ?_).trans (List.perm_append_singleton s _).symm
    refine List.Perm.flatMap_left _ fun t _ => ?_
    split
    · exact ih t
    · exact List.Perm.refl _

section Measure

variable {advances : σ → σ → Bool} {f : Matcher σ} {μ : σ → ℕ}

/-- Optional iterations that all consume something: what is left to consume bounds the ways. -/
theorem length_optional_le_measure (advances : σ → σ → Bool) (hf : Unique f)
    (hμ : ∀ s, ∀ t ∈ f s, μ t < μ s) (n : ℕ)
    (s : σ) : (optional advances f n s).length ≤ μ s + 1 := by
  induction n generalizing s with
  | zero => simp [optional]
  | succ n ih =>
    have hmore : ((f s).flatMap
        fun t => if advances s t then optional advances f n t else [t]).length ≤ μ s := by
      refine length_flatMap_le_of_unique (hf s) fun t ht => ?_
      have hlt := hμ s t ht
      split
      · have := ih t
        omega
      · simp only [List.length_singleton]
        omega
    rw [optional, List.length_append, List.length_singleton]
    omega

/-- After `n` iterations that all consume something, `n` is consumed. -/
theorem measure_of_mem_iterate (hμ : ∀ s, ∀ t ∈ f s, μ t < μ s) (n : ℕ) (s t : σ)
    (ht : t ∈ iterate f n s) : μ t + n ≤ μ s := by
  induction n generalizing s with
  | zero =>
    simp only [iterate, List.mem_singleton] at ht
    subst ht
    exact le_rfl
  | succ n ih =>
    rw [iterate, List.mem_flatMap] at ht
    obtain ⟨r, hr, htr⟩ := ht
    have hlt := hμ s r hr
    have := ih r htr
    omega

end Measure

end Backtracking
