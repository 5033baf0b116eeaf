import Mathlib.Logic.Basic

/-!
# Transition systems

A machine is a start state and a partial step function: an event is enabled in a state when the step
is defined. `Reaches allowed` holds of the states of the runs whose steps are all allowed, and an
invariant of a machine is proved once for its start and once for each event.
-/

universe u v

/-- The states of a system and what an event makes of each. -/
structure Machine (σ : Type u) (ε : Type v) where
  start : σ
  step : σ → ε → Option σ

namespace Machine

variable {σ : Type u} {ε : Type v} {M : Machine σ ε}

/-- The state after a list of events, when each is enabled in its turn. -/
def run (M : Machine σ ε) : σ → List ε → Option σ
  | state, [] => some state
  | state, event :: events =>
      match M.step state event with
      | none => none
      | some next => M.run next events

/-- A state of some run whose steps are all allowed. -/
inductive Reaches (M : Machine σ ε) (allowed : σ → ε → Prop) : σ → Prop
  | start : Reaches M allowed M.start
  | step {state next : σ} {event : ε} (before : Reaches M allowed state)
      (ok : allowed state event) (taken : M.step state event = some next) :
      Reaches M allowed next

/-- A state of some run. -/
def Reachable (M : Machine σ ε) (state : σ) : Prop :=
  M.Reaches (fun _ _ => True) state

/-- The start is reached. -/
theorem Reachable.start : M.Reachable M.start :=
  Reaches.start

/-- So is whatever a reached state steps to. -/
theorem Reachable.step {state next : σ} {event : ε} (h : M.Reachable state)
    (taken : M.step state event = some next) : M.Reachable next :=
  Reaches.step h trivial taken

/-- What a list of events keeps, when every step keeps it. -/
theorem run_invariant {P : σ → Prop}
    (step : ∀ {state event next}, P state → M.step state event = some next → P next)
    {state last : σ} (before : P state) (events : List ε) (ran : M.run state events = some last) :
    P last := by
  induction events generalizing state with
  | nil =>
    cases ran
    exact before
  | cons event events ih =>
    unfold Machine.run at ran
    cases taken : M.step state event with
    | none =>
      rw [taken] at ran
      cases ran
    | some next =>
      rw [taken] at ran
      exact ih (step before taken) ran

/-- The state a list of events leads to is reachable. -/
theorem Reachable.run {state last : σ} (h : M.Reachable state) (events : List ε)
    (ran : M.run state events = some last) : M.Reachable last :=
  run_invariant Reachable.step h events ran

/-- What holds at the start and is kept by every allowed step holds in every state reached. -/
theorem Reaches.invariant {allowed : σ → ε → Prop} {P : σ → Prop} (start : P M.start)
    (step : ∀ {state event next}, P state → allowed state event → M.step state event = some next →
      P next) {state : σ} (h : M.Reaches allowed state) : P state := by
  induction h with
  | start => exact start
  | step _ ok taken ih => exact step ih ok taken

/-- What holds at the start and is kept by every step is an invariant. -/
theorem Reachable.invariant {P : σ → Prop} (start : P M.start)
    (step : ∀ {state event next}, P state → M.step state event = some next → P next) {state : σ}
    (h : M.Reachable state) : P state :=
  Reaches.invariant start (fun before _ taken => step before taken) h

/-! ## Conditions on the steps of one run -/

/-- Every step of a run meets a condition on the state before it. -/
def Meets (M : Machine σ ε) (allowed : σ → ε → Prop) : σ → List ε → Prop
  | _, [] => True
  | state, event :: events =>
      allowed state event ∧ ∀ next, M.step state event = some next → M.Meets allowed next events

/-- A property that a step keeps exactly when it is allowed holds after a run exactly when it held
before and every step of the run is allowed. -/
theorem run_iff {P Q : σ → Prop} {allowed : σ → ε → Prop}
    (invariant : ∀ {state event next}, P state → M.step state event = some next → P next)
    (exact : ∀ {state event next}, P state → M.step state event = some next →
      (Q next ↔ Q state ∧ allowed state event))
    {state last : σ} (before : P state) (events : List ε) (ran : M.run state events = some last) :
    Q last ↔ Q state ∧ M.Meets allowed state events := by
  induction events generalizing state with
  | nil =>
    cases ran
    exact (and_iff_left trivial).symm
  | cons event events ih =>
    unfold Machine.run at ran
    cases taken : M.step state event with
    | none =>
      rw [taken] at ran
      cases ran
    | some next =>
      rw [taken] at ran
      have hmeets : M.Meets allowed state (event :: events)
          ↔ allowed state event ∧ M.Meets allowed next events := by
        show (_ ∧ ∀ next, _ → _) ↔ _
        rw [taken]
        simp only [Option.some.injEq, forall_eq']
      rw [hmeets, ih (invariant before taken) ran, exact before taken, and_assoc]

end Machine
