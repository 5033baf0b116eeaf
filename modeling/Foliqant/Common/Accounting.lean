import Mathlib.Algebra.BigOperators.Group.List.Basic

/-!
# Amounts that are accounted for

A log of events has a total of the amounts of its events. What a part of a computation holds when it
ends accounts for the amounts it logged, but for what was lost; and only some ends may lose anything.
-/

namespace Accounting

variable {E M : Type*} [AddCommMonoid M]

/-- The total of the amounts of a log. -/
def total (amount : E → M) (events : List E) : M := (events.map amount).sum

section Total

variable (amount : E → M)

/-- Amounts add up over consecutive runs of events. -/
@[simp] theorem total_append (events more : List E) :
    total amount (events ++ more) = total amount events + total amount more := by
  rw [total, List.map_append, List.sum_append]
  rfl

/-- One event accounts for its own amount. -/
@[simp] theorem total_singleton (event : E) : total amount [event] = amount event :=
  add_zero (amount event)

/-- Events without an amount add nothing. -/
theorem total_quiet {amount : E → M} {events : List E} (quiet : ∀ event ∈ events, amount event = 0) :
    total amount events = 0 := by
  apply List.sum_eq_zero
  intro own mem
  obtain ⟨event, known, rfl⟩ := List.mem_map.mp mem
  exact quiet event known

end Total

/-- From one total to another an amount is held, and the rest was lost: nothing, unless the end may lose. -/
def Accounted (before after held : M) (lossy : Prop) : Prop :=
  ∃ lost, after = before + held + lost ∧ (lost = 0 ∨ lossy)

variable {before middle after early held late : M} {lossy lossy' : Prop}

/-- An exact sum is accounted for, whatever may be lost. -/
theorem accounted (exact_ : after = before + held) : Accounted before after held lossy :=
  ⟨0, by rw [exact_, add_zero], .inl rfl⟩

/-- An end that may not lose holds everything. -/
theorem Accounted.whole (h : Accounted before after held lossy) (safe : ¬ lossy) :
    after = before + held := by
  obtain ⟨lost, same, nothing | may⟩ := h
  · rw [same, nothing, add_zero]
  · exact absurd may safe

/-- What may be lost may be widened. -/
theorem Accounted.mono (h : Accounted before after held lossy) (weaker : lossy → lossy') :
    Accounted before after held lossy' := by
  obtain ⟨lost, same, either⟩ := h
  exact ⟨lost, same, either.imp_right weaker⟩

/-- A part after one that lost nothing. -/
theorem Accounted.behind (h : Accounted middle after late lossy) (first : middle = before + early) :
    Accounted before after (early + late) lossy := by
  obtain ⟨lost, same, either⟩ := h
  exact ⟨lost, by rw [same, first, add_assoc before], either⟩

/-- The same amounts under another name. -/
theorem Accounted.rename (h : Accounted before after held lossy) (same : late = held) :
    Accounted before after late lossy := same ▸ h

/-- An account moves along an equal amount. -/
theorem Accounted.at (h : Accounted before after held lossy) (same : middle = after) :
    Accounted before middle held lossy := same ▸ h

end Accounting
