import Foliqant.Common.Emission

/-!
# Triples that promise events

Pre- and postconditions of computations that can fail over a state with a log. A computation that starts
in its precondition appends sound events only, and ends in its postcondition, or fails in a state of the
condition on failures.
-/

namespace Guarantee

open Emission (after)

variable {ε S E α β : Type}

/-- What the log of a state is, and what is promised of every event. -/
structure Watch (S E : Type) where
  log : S → List E
  sound : E → Prop

/-- Only sound events were appended between two states. -/
def Grows (watch : Watch S E) (s s' : S) : Prop :=
  ∃ events, watch.log s' = watch.log s ++ events ∧ ∀ event ∈ events, watch.sound event

/-- How a computation ended. -/
def Meets (post : α → S → Prop) (fails : S → Prop) : EStateM.Result ε S α → Prop
  | .ok a s => post a s
  | .error _ s => fails s

/-- Started in `pre`, `x` only grows the watched log, ends in `post` if it returns and in `fails` if
it raises. -/
def Ensures (watch : Watch S E) (pre : S → Prop) (x : EStateM ε S α) (post : α → S → Prop)
    (fails : S → Prop) : Prop :=
  ∀ s, pre s → Grows watch s (after (x s)) ∧ Meets post fails (x s)

variable {watch : Watch S E} {pre pre' fails fails' : S → Prop} {post post' : α → S → Prop}
  {x : EStateM ε S α}

/-- Nothing grows by doing nothing. -/
theorem Grows.refl (s : S) : Grows watch s s :=
  ⟨[], (List.append_nil _).symm, List.forall_mem_nil _⟩

/-- Growth composes. -/
theorem Grows.trans {s s' s'' : S} (first : Grows watch s s') (second : Grows watch s' s'') :
    Grows watch s s'' := by
  obtain ⟨early, grown, sound⟩ := first
  obtain ⟨late, grown', sound'⟩ := second
  exact ⟨early ++ late, by rw [grown', grown, List.append_assoc],
    List.forall_mem_append.mpr ⟨sound, sound'⟩⟩

/-- What starts in no log has a sound log. -/
theorem Grows.sound {s s' : S} (h : Grows watch s s') (empty : watch.log s = []) :
    ∀ event ∈ watch.log s', watch.sound event := by
  obtain ⟨events, grown, sound⟩ := h
  rw [grown, empty]
  exact sound

/-- The rule of consequence. -/
theorem Ensures.mono (h : Ensures watch pre x post fails) (weaker : ∀ s, pre' s → pre s)
    (stronger : ∀ a s, post a s → post' a s) (failing : ∀ s, fails s → fails' s) :
    Ensures watch pre' x post' fails' := by
  intro s given
  obtain ⟨grows, meets⟩ := h s (weaker s given)
  refine ⟨grows, ?_⟩
  rcases ran : x s with ⟨a, s'⟩ | ⟨error, s'⟩
  all_goals rw [ran] at meets
  · exact stronger a s' meets
  · exact failing s' meets

/-- A returned value ensures what holds of it. -/
theorem ensures_pure {a : α} (h : ∀ s, pre s → post a s) :
    Ensures watch pre (pure a : EStateM ε S α) post fails :=
  fun s given => ⟨.refl s, h s given⟩

/-- The rest starts where the first part ends. -/
theorem Ensures.bind {f : α → EStateM ε S β} {last : β → S → Prop}
    (first : Ensures watch pre x post fails) (rest : ∀ a, Ensures watch (post a) (f a) last fails) :
    Ensures watch pre (x >>= f) last fails := by
  intro s given
  obtain ⟨grows, meets⟩ := first s given
  have unfolded : (x >>= f) s = EStateM.bind x f s := rfl
  rw [unfolded]
  unfold EStateM.bind
  rcases ran : x s with ⟨a, s'⟩ | ⟨error, s'⟩
  all_goals rw [ran] at grows meets
  · obtain ⟨grows', meets'⟩ := rest a s' meets
    exact ⟨grows.trans grows', meets'⟩
  · exact ⟨grows, meets⟩

/-- A test ensures what both branches do. -/
theorem Ensures.ite {c : Prop} [Decidable c] {y : EStateM ε S α}
    (yes : c → Ensures watch pre x post fails)
    (no : ¬ c → Ensures watch pre y post fails) :
    Ensures watch pre (if c then x else y) post fails := by
  by_cases h : c
  · rw [if_pos h]
    exact yes h
  · rw [if_neg h]
    exact no h

/-- A fact that the precondition has, whatever the state. -/
theorem Ensures.given {c : Prop} (known : ∀ s, pre s → c) (h : c → Ensures watch pre x post fails) :
    Ensures watch pre x post fails := fun s given => h (known s given) s given

/-- The rest knows what the first part says of its value, and starts from what that keeps. -/
theorem Ensures.keep {inv : S → Prop} {c : α → Prop} {f : α → EStateM ε S β} {last : β → S → Prop}
    (first : Ensures watch pre x (fun a s => inv s ∧ c a) fails)
    (rest : ∀ a, c a → Ensures watch inv (f a) last fails) : Ensures watch pre (x >>= f) last fails :=
  first.bind fun a => .given (fun _ reached => reached.2) fun known =>
    (rest a known).mono (fun _ reached => reached.1) (fun _ _ => id) fun _ => id

end Guarantee
