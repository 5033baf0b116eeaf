import Foliqant.Common.Emission

/-!
# What a computation spends

Computations that can fail over a state with a log of events and a meter that has a limit. A rule of a
computation bounds what it spends. Where the bound fits below the limit, the limit stops nothing; and
excluded events never happen, whether it fits or not.
-/

namespace Metering

open Emission (after)

variable {ε S E α β : Type}

/-- The log and the meter of a state, the limit, the events of a computation that the limit stops, and
the events that are excluded. -/
structure Meter (S E : Type) where
  log : S → List E
  spent : S → ℕ
  limit : ℕ
  stopped : E → Prop
  excluded : E → Prop

variable (meter : Meter S E)

/-- What happens between two states when at most `n` is spent. -/
def Spends (n : ℕ) (s s' : S) : Prop :=
  ∃ events, meter.log s' = meter.log s ++ events ∧ meter.spent s' ≤ meter.spent s + n ∧
    ∀ event ∈ events, ¬ meter.excluded event ∧
      (meter.stopped event → meter.limit < meter.spent s + n)

/-- A computation spends at most `n`, and its value meets the postcondition. -/
def Costs (n : ℕ) (x : EStateM ε S α) (post : α → Prop) : Prop :=
  ∀ s, Spends meter n s (after (x s)) ∧ ∀ a s', x s = .ok a s' → post a

variable {meter} {n m : ℕ}

/-- Nothing is spent. -/
theorem Spends.refl (s : S) : Spends meter 0 s s :=
  ⟨[], (List.append_nil _).symm, Nat.le_refl _, List.forall_mem_nil _⟩

/-- More may be allowed. -/
theorem Spends.mono {s s' : S} (h : Spends meter n s s') (le : n ≤ m) : Spends meter m s s' := by
  obtain ⟨events, grows, spent, each⟩ := h
  refine ⟨events, grows, by omega, fun event mem => ⟨(each event mem).1, fun stopped => ?_⟩⟩
  have := (each event mem).2 stopped
  omega

/-- What is spent in two parts. -/
theorem Spends.trans {s s' s'' : S} (first : Spends meter n s s') (rest : Spends meter m s' s'') :
    Spends meter (n + m) s s'' := by
  obtain ⟨early, grows, spent, each⟩ := first
  obtain ⟨late, grows', spent', each'⟩ := rest
  refine ⟨early ++ late, by rw [grows', grows, List.append_assoc], by omega, fun event mem => ?_⟩
  rcases List.mem_append.mp mem with mem | mem
  · refine ⟨(each event mem).1, fun stopped => ?_⟩
    have := (each event mem).2 stopped
    omega
  · refine ⟨(each' event mem).1, fun stopped => ?_⟩
    have := (each' event mem).2 stopped
    omega

variable {x : EStateM ε S α} {post post' : α → Prop}

/-- More may be allowed, and less promised. -/
theorem Costs.mono (h : Costs meter n x post) (le : n ≤ m) (weaker : ∀ a, post a → post' a) :
    Costs meter m x post' := fun s =>
  ⟨(h s).1.mono le, fun a s' ran => weaker a ((h s).2 a s' ran)⟩

/-- More may be allowed. -/
theorem Costs.le (h : Costs meter n x post) (le : n ≤ m) : Costs meter m x post :=
  h.mono le fun _ => id

/-- Nothing may be promised. -/
theorem Costs.drop (h : Costs meter n x post) : Costs meter n x fun _ => True :=
  h.mono (Nat.le_refl n) fun _ _ => trivial

/-- A value costs nothing. -/
theorem costs_pure {a : α} (h : post a) : Costs meter n (pure a : EStateM ε S α) post := by
  intro s
  refine ⟨(Spends.refl s).mono (Nat.zero_le n), fun b s' ran => ?_⟩
  have ok : (EStateM.Result.ok a s : EStateM.Result ε S α) = .ok b s' := ran
  obtain ⟨rfl, -⟩ := EStateM.Result.ok.inj ok
  exact h

/-- Two parts together spend what each of them spends. -/
theorem Costs.bind {f : α → EStateM ε S β} {last : β → Prop} (first : Costs meter n x post)
    (rest : ∀ a, post a → Costs meter m (f a) last) : Costs meter (n + m) (x >>= f) last := by
  intro s
  have start := first s
  have unfolded : (x >>= f) s = EStateM.bind x f s := rfl
  rw [unfolded]
  unfold EStateM.bind
  rcases ran : x s with ⟨a, s'⟩ | ⟨error, s'⟩
  all_goals rw [ran] at start
  · have further := rest a (start.2 a s' rfl) s'
    exact ⟨start.1.trans further.1, further.2⟩
  · refine ⟨start.1.mono (Nat.le_add_right n m), fun b s'' failed => ?_⟩
    cases failed

/-- A first part that spends nothing. -/
theorem Costs.free_bind {f : α → EStateM ε S β} {last : β → Prop} (first : Costs meter 0 x post)
    (rest : ∀ a, post a → Costs meter n (f a) last) : Costs meter n (x >>= f) last :=
  (first.bind rest).le (Nat.le_of_eq (Nat.zero_add n))

/-- A last part that spends nothing. -/
theorem Costs.bind_free {f : α → EStateM ε S β} {last : β → Prop} (first : Costs meter n x post)
    (rest : ∀ a, post a → Costs meter 0 (f a) last) : Costs meter n (x >>= f) last :=
  (first.bind rest).le (Nat.le_of_eq (Nat.add_zero n))

/-- Both branches of a test. -/
theorem Costs.ite {c : Prop} [Decidable c] {y : EStateM ε S α} (yes : c → Costs meter n x post)
    (no : ¬ c → Costs meter n y post) : Costs meter n (if c then x else y) post := by
  by_cases h : c
  · rw [if_pos h]
    exact yes h
  · rw [if_neg h]
    exact no h

end Metering
