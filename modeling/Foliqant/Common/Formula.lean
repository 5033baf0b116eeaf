import Mathlib.Logic.Basic
import Foliqant.Common.Fallible

/-!
# Boolean formulas

Formulas over atoms, with conjunctions and disjunctions of any length. A formula has a classical truth
value, an evaluation that stops at the first operand that decides and can fail at an atom, and a
three-valued estimate from estimates of its atoms.
-/

universe u v

/-- Formulas over atoms. -/
inductive Formula (α : Type u) where
  | atom (a : α)
  | all (operands : List (Formula α))
  | any (operands : List (Formula α))
  | not (operand : Formula α)

namespace Formula

variable {α : Type u} {ε : Type v}

mutual

/-- The atoms in their order. -/
def atoms : Formula α → List α
  | .atom a => [a]
  | .all operands | .any operands => atomsOf operands
  | .not operand => operand.atoms

/-- The atoms of formulas. -/
def atomsOf : List (Formula α) → List α
  | [] => []
  | operand :: rest => operand.atoms ++ atomsOf rest

end

/-! ## Truth -/

mutual

/-- The truth of a formula. -/
def Holds (val : α → Prop) : Formula α → Prop
  | .atom a => val a
  | .all operands => AllHold val operands
  | .any operands => AnyHolds val operands
  | .not operand => ¬ operand.Holds val

/-- Each formula is true. -/
def AllHold (val : α → Prop) : List (Formula α) → Prop
  | [] => True
  | operand :: rest => operand.Holds val ∧ AllHold val rest

/-- Some formula is true. -/
def AnyHolds (val : α → Prop) : List (Formula α) → Prop
  | [] => False
  | operand :: rest => operand.Holds val ∨ AnyHolds val rest

end

/-! ## Evaluation -/

mutual

/-- `all` and `any` stop at the first operand that decides. -/
def run (eval : α → Except ε Bool) : Formula α → Except ε Bool
  | .atom a => eval a
  | .all operands => runAll eval operands
  | .any operands => runAny eval operands
  | .not operand => do return !(← operand.run eval)

/-- Evaluate until one formula is false. -/
def runAll (eval : α → Except ε Bool) : List (Formula α) → Except ε Bool
  | [] => .ok true
  | operand :: rest => do
      if ← operand.run eval then runAll eval rest
      else return false

/-- Evaluate until one formula is true. -/
def runAny (eval : α → Except ε Bool) : List (Formula α) → Except ε Bool
  | [] => .ok false
  | operand :: rest => do
      if ← operand.run eval then return true
      else runAny eval rest

end

mutual

/-- Every atom that the evaluation reaches is good. -/
def Reaches (val good : α → Prop) : Formula α → Prop
  | .atom a => good a
  | .all operands => ReachesAll val good operands
  | .any operands => ReachesAny val good operands
  | .not operand => operand.Reaches val good

/-- The atoms that are evaluated until one formula is false. -/
def ReachesAll (val good : α → Prop) : List (Formula α) → Prop
  | [] => True
  | operand :: rest => operand.Reaches val good ∧ (operand.Holds val → ReachesAll val good rest)

/-- The atoms that are evaluated until one formula is true. -/
def ReachesAny (val good : α → Prop) : List (Formula α) → Prop
  | [] => True
  | operand :: rest => operand.Reaches val good ∧ (¬ operand.Holds val → ReachesAny val good rest)

end

/-- An evaluation of an atom is exact when it succeeds on the good ones, with their truth values. -/
def Exact (val good : α → Prop) (eval : α → Except ε Bool) (a : α) : Prop :=
  ∀ b, eval a = .ok b ↔ good a ∧ (b = true ↔ val a)

variable {val good : α → Prop} {eval : α → Except ε Bool}

/-- A branch on a first result. -/
theorem bind_ite_eq_ok {first yes no : Except ε Bool} {b : Bool} :
    (do if ← first then yes else no) = Except.ok b ↔
      (first = .ok true ∧ yes = .ok b) ∨ (first = .ok false ∧ no = .ok b) := by
  rcases first with error | _ | _
  · exact iff_of_false nofun (by rintro (⟨h, -⟩ | ⟨h, -⟩) <;> cases h)
  · exact ⟨fun h => .inr ⟨rfl, h⟩, fun h => (h.resolve_left fun wrong => nomatch wrong.1).2⟩
  · exact ⟨fun h => .inl ⟨rfl, h⟩, fun h => (h.resolve_right fun wrong => nomatch wrong.1).2⟩

mutual

/-- The evaluation succeeds exactly when every atom that it reaches is good, with the truth value. -/
theorem run_eq_ok : (f : Formula α) → (∀ a ∈ f.atoms, Exact val good eval a) → (b : Bool) →
    (f.run eval = .ok b ↔ f.Reaches val good ∧ (b = true ↔ f.Holds val))
  | .atom a, exact, b => exact a List.mem_cons_self b
  | .all operands, exact, b => runAll_eq_ok operands exact b
  | .any operands, exact, b => runAny_eq_ok operands exact b
  | .not operand, exact, b => by
      show (operand.run eval >>= fun value => pure !value) = _ ↔ operand.Reaches val good ∧ (_ ↔ ¬ _)
      rw [Except.bind_eq_ok]
      constructor
      · rintro ⟨value, ran, same⟩
        obtain rfl := Except.pure_eq_ok.mp same
        obtain ⟨reaches, truth⟩ := (run_eq_ok operand exact value).mp ran
        exact ⟨reaches, by rw [← truth, Bool.not_eq_true', Bool.not_eq_true]⟩
      · rintro ⟨reaches, truth⟩
        refine ⟨!b, (run_eq_ok operand exact _).mpr ⟨reaches, ?_⟩, ?_⟩
        · rw [Bool.not_eq_true', ← Bool.not_eq_true, truth, not_not]
        · rw [Bool.not_not]
          rfl

/-- Evaluation until one formula is false is exact. -/
theorem runAll_eq_ok : (operands : List (Formula α)) →
    (∀ a ∈ atomsOf operands, Exact val good eval a) →
    (b : Bool) →
      (runAll eval operands = .ok b ↔ ReachesAll val good operands ∧
        (b = true ↔ AllHold val operands))
  | [], _, b => by
      show Except.ok true = .ok b ↔ True ∧ (b = true ↔ True)
      rw [Except.ok.injEq, eq_comm, iff_true, true_and]
  | operand :: rest, exact, b => by
      have first := run_eq_ok operand fun a mem => exact a (List.mem_append_left _ mem)
      have others := runAll_eq_ok rest (fun a mem => exact a (List.mem_append_right _ mem)) b
      show (do if ← operand.run eval then runAll eval rest else pure false) = Except.ok b ↔
        (operand.Reaches val good ∧ (operand.Holds val → ReachesAll val good rest)) ∧
          (b = true ↔ operand.Holds val ∧ AllHold val rest)
      rw [bind_ite_eq_ok, first, first, others, Except.pure_eq_ok]
      by_cases holds : operand.Holds val
      · simp [holds]
        tauto
      · simp [holds, eq_comm]

/-- Evaluation until one formula is true is exact. -/
theorem runAny_eq_ok : (operands : List (Formula α)) →
    (∀ a ∈ atomsOf operands, Exact val good eval a) →
    (b : Bool) →
      (runAny eval operands = .ok b ↔ ReachesAny val good operands ∧
        (b = true ↔ AnyHolds val operands))
  | [], _, b => by
      show Except.ok false = .ok b ↔ True ∧ (b = true ↔ False)
      rw [Except.ok.injEq, eq_comm, iff_false, true_and, Bool.not_eq_true]
  | operand :: rest, exact, b => by
      have first := run_eq_ok operand fun a mem => exact a (List.mem_append_left _ mem)
      have others := runAny_eq_ok rest (fun a mem => exact a (List.mem_append_right _ mem)) b
      show (do if ← operand.run eval then pure true else runAny eval rest) = Except.ok b ↔
        (operand.Reaches val good ∧ (¬ operand.Holds val → ReachesAny val good rest)) ∧
          (b = true ↔ operand.Holds val ∨ AnyHolds val rest)
      rw [bind_ite_eq_ok, first, first, others, Except.pure_eq_ok]
      by_cases holds : operand.Holds val
      · simp [holds, eq_comm]
      · simp [holds]
        tauto

end

/-- The evaluation fails exactly when it reaches an atom that is not good. -/
theorem run_succeeds {f : Formula α} (exact : ∀ a ∈ f.atoms, Exact val good eval a) :
    (∃ b, f.run eval = .ok b) ↔ f.Reaches val good := by
  constructor
  · rintro ⟨b, ran⟩
    exact ((run_eq_ok f exact b).mp ran).1
  · intro reaches
    by_cases holds : f.Holds val
    · exact ⟨true, (run_eq_ok f exact true).mpr ⟨reaches, iff_of_true rfl holds⟩⟩
    · exact ⟨false, (run_eq_ok f exact false).mpr ⟨reaches, iff_of_false Bool.noConfusion holds⟩⟩

/-! ## Estimates -/

/-- What the estimates of all operands say about their conjunction. -/
def conjunction (results : List (Option Bool)) : Option Bool :=
  if results.any (· == some false) then some false
  else if results.all (· == some true) then some true
  else none

/-- The verdict of some formula. -/
def disjunction (results : List (Option Bool)) : Option Bool :=
  if results.any (· == some true) then some true
  else if results.all (· == some false) then some false
  else none

mutual

/-- The truth value, as far as the estimates of the atoms tell. -/
def estimate (known : α → Option Bool) : Formula α → Option Bool
  | .atom a => known a
  | .all operands => conjunction (estimates known operands)
  | .any operands => disjunction (estimates known operands)
  | .not operand => (operand.estimate known).map fun value => !value

/-- What is known about formulas. -/
def estimates (known : α → Option Bool) : List (Formula α) → List (Option Bool)
  | [] => []
  | operand :: rest => operand.estimate known :: estimates known rest

end

/-- An estimate says nothing, or the truth value. -/
def Estimates (val : α → Prop) (known : α → Option Bool) (a : α) : Prop :=
  ∀ b, known a = some b → (b = true ↔ val a)

/-- A list of estimates for a list of formulas. -/
structure Estimated (val : α → Prop) (results : List (Option Bool)) (operands : List (Formula α)) :
    Prop where
  refutes : some false ∈ results → ¬ AllHold val operands
  proves : (∀ result ∈ results, result = some true) → AllHold val operands
  finds : some true ∈ results → AnyHolds val operands
  excludes : (∀ result ∈ results, result = some false) → ¬ AnyHolds val operands

variable {known : α → Option Bool}

/-- Nothing is known about no formulas. -/
theorem estimated_nil : Estimated val [] ([] : List (Formula α)) :=
  ⟨nofun, fun _ => trivial, nofun, fun _ => id⟩

/-- What is known about a first formula and the others. -/
theorem estimated_cons {result : Option Bool} {results : List (Option Bool)} {operand : Formula α}
    {rest : List (Formula α)} (first : ∀ b, result = some b → (b = true ↔ operand.Holds val))
    (others : Estimated val results rest) : Estimated val (result :: results) (operand :: rest) where
  refutes mem holds := by
    rcases List.mem_cons.mp mem with here | there
    · exact absurd ((first false here.symm).mpr holds.1) Bool.noConfusion
    · exact others.refutes there holds.2
  proves all := by
    obtain ⟨here, there⟩ := List.forall_mem_cons.mp all
    exact ⟨(first true here).mp rfl, others.proves there⟩
  finds mem := by
    rcases List.mem_cons.mp mem with here | there
    · exact .inl ((first true here.symm).mp rfl)
    · exact .inr (others.finds there)
  excludes all := by
    obtain ⟨here, there⟩ := List.forall_mem_cons.mp all
    rintro (holds | holds)
    · exact absurd ((first false here).mpr holds) Bool.noConfusion
    · exact others.excludes there holds

/-- What is known about all formulas. -/
theorem Estimated.conjunction {results : List (Option Bool)} {operands : List (Formula α)}
    (h : Estimated val results operands) (b : Bool) (said : Formula.conjunction results = some b) :
    b = true ↔ AllHold val operands := by
  unfold Formula.conjunction at said
  split at said
  case isTrue found =>
    obtain ⟨result, mem, same⟩ := List.any_eq_true.mp found
    obtain rfl := Option.some.inj said
    exact iff_of_false Bool.noConfusion (h.refutes (beq_iff_eq.mp same ▸ mem))
  case isFalse =>
    split at said
    case isTrue every =>
      obtain rfl := Option.some.inj said
      refine iff_of_true rfl (h.proves fun result mem => ?_)
      exact beq_iff_eq.mp (List.all_eq_true.mp every result mem)
    case isFalse => cases said

/-- What is known about some formula. -/
theorem Estimated.disjunction {results : List (Option Bool)} {operands : List (Formula α)}
    (h : Estimated val results operands) (b : Bool) (said : Formula.disjunction results = some b) :
    b = true ↔ AnyHolds val operands := by
  unfold Formula.disjunction at said
  split at said
  case isTrue found =>
    obtain ⟨result, mem, same⟩ := List.any_eq_true.mp found
    obtain rfl := Option.some.inj said
    exact iff_of_true rfl (h.finds (beq_iff_eq.mp same ▸ mem))
  case isFalse =>
    split at said
    case isTrue every =>
      obtain rfl := Option.some.inj said
      refine iff_of_false Bool.noConfusion (h.excludes fun result mem => ?_)
      exact beq_iff_eq.mp (List.all_eq_true.mp every result mem)
    case isFalse => cases said

mutual

/-- The estimate of a formula is sound when those of its atoms are. -/
theorem estimate_sound : (f : Formula α) → (∀ a ∈ f.atoms, Estimates val known a) → (b : Bool) →
    f.estimate known = some b → (b = true ↔ f.Holds val)
  | .atom a, sound, b, said => sound a List.mem_cons_self b said
  | .all operands, sound, b, said => (estimated operands sound).conjunction b said
  | .any operands, sound, b, said => (estimated operands sound).disjunction b said
  | .not operand, sound, b, said => by
      obtain ⟨value, inner, rfl⟩ := Option.map_eq_some_iff.mp said
      show _ ↔ ¬ operand.Holds val
      rw [← estimate_sound operand sound value inner, Bool.not_eq_true', Bool.not_eq_true]

/-- What is known about each formula. -/
theorem estimated : (operands : List (Formula α)) → (∀ a ∈ atomsOf operands, Estimates val known a) →
    Estimated val (estimates known operands) operands
  | [], _ => estimated_nil
  | operand :: rest, sound =>
      estimated_cons (estimate_sound operand fun a mem => sound a (List.mem_append_left _ mem))
        (estimated rest fun a mem => sound a (List.mem_append_right _ mem))

end

end Formula
