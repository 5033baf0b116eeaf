import Mathlib.Logic.Basic
import Foliqant.Common.Fallible

/-!
# Rules for the events of a computation

Computations that can fail over a state with a log of events. A rule of a computation relies on the
events that it appends and guarantees something about them, about the state, and about its value; that
it only appends holds without the precondition.
-/

namespace Emission

variable {ε S T E α β : Type}

/-- The state after a computation, whether it ended or failed. -/
def after : EStateM.Result ε S α → S
  | .ok _ s => s
  | .error _ s => s

/-- What the log of a state is, what is relied on and guaranteed about events, and what is kept. -/
structure Rules (S E : Type) where
  log : S → List E
  rely : E → Prop
  guarantee : E → Prop
  keep : S → Prop

variable (rules : Rules S E)

/-- What a part of a run from one state to another one says about the events in between. -/
def Emits (s s' : S) (pre post : Prop) : Prop :=
  ∃ events, rules.log s' = rules.log s ++ events ∧
    (pre → rules.keep s → (∀ event ∈ events, rules.rely event) →
      (∀ event ∈ events, rules.guarantee event) ∧ rules.keep s' ∧ post)

/-- Under the precondition, and while the new events can be relied on, a computation guarantees them,
keeps the state and has a value of the postcondition. -/
def Yields (pre : Prop) (x : EStateM ε S α) (post : α → Prop) : Prop :=
  ∀ s, Emits rules s (after (x s)) pre (∀ a s', x s = .ok a s' → post a)

variable {rules} {pre pre' : Prop} {post post' : α → Prop} {x : EStateM ε S α}

/-- A step that emits nothing keeps the rules. -/
theorem Emits.refl {s : S} {post : Prop} (h : pre → post) : Emits rules s s pre post :=
  ⟨[], (List.append_nil _).symm, fun given kept _ => ⟨List.forall_mem_nil _, kept, h given⟩⟩

/-- The condition may be strengthened and the conclusion weakened. -/
theorem Emits.mono {s s' : S} {post post' : Prop} (h : Emits rules s s' pre post)
    (weaker : pre' → pre) (stronger : pre' → post → post') : Emits rules s s' pre' post' := by
  obtain ⟨events, grows, spec⟩ := h
  refine ⟨events, grows, fun given kept relied => ?_⟩
  obtain ⟨guaranteed, kept, holds⟩ := spec (weaker given) kept relied
  exact ⟨guaranteed, kept, stronger given holds⟩

/-- The second part may assume what the first one establishes. -/
theorem Emits.trans {s s' s'' : S} {middle post : Prop} (first : Emits rules s s' pre middle)
    (second : Emits rules s' s'' (pre ∧ middle) post) : Emits rules s s'' pre post := by
  obtain ⟨early, grows, spec⟩ := first
  obtain ⟨late, grows', spec'⟩ := second
  refine ⟨early ++ late, by rw [grows', grows, List.append_assoc], fun given kept relied => ?_⟩
  obtain ⟨relied, relied'⟩ := List.forall_mem_append.mp relied
  obtain ⟨guaranteed, kept, holds⟩ := spec given kept relied
  obtain ⟨guaranteed', kept, holds'⟩ := spec' ⟨given, holds⟩ kept relied'
  exact ⟨List.forall_mem_append.mpr ⟨guaranteed, guaranteed'⟩, kept, holds'⟩

/-- The rule of consequence. -/
theorem Yields.mono (h : Yields rules pre x post) (weaker : pre' → pre)
    (stronger : ∀ a, pre' → post a → post' a) : Yields rules pre' x post' := fun s =>
  (h s).mono weaker fun given holds a s' ran => stronger a given (holds a s' ran)

/-- What is known of the result may be forgotten. -/
theorem Yields.drop (h : Yields rules pre x post) : Yields rules pre x fun _ => True :=
  h.mono id fun _ _ _ => trivial

/-- A returned value yields what holds of it. -/
theorem yields_pure {a : α} (h : pre → post a) :
    Yields rules pre (pure a : EStateM ε S α) post := fun s =>
  Emits.refl fun given b s' ran => by
    have ok : (EStateM.Result.ok a s : EStateM.Result ε S α) = .ok b s' := ran
    obtain ⟨rfl, -⟩ := EStateM.Result.ok.inj ok
    exact h given

/-- The rest runs under what is known of the value. -/
theorem Yields.bind {f : α → EStateM ε S β} {last : β → Prop} (first : Yields rules pre x post)
    (rest : ∀ a, Yields rules (pre ∧ post a) (f a) last) : Yields rules pre (x >>= f) last := by
  intro s
  have start := first s
  have unfolded : (x >>= f) s = EStateM.bind x f s := rfl
  rw [unfolded]
  unfold EStateM.bind
  rcases ran : x s with ⟨a, s'⟩ | ⟨error, s'⟩
  all_goals rw [ran] at start
  · have middle : Emits rules s s' pre (post a) := start.mono id fun _ holds => holds a s' rfl
    exact middle.trans (rest a s')
  · exact start.mono id fun _ _ a s'' failed => nomatch failed

/-- The rest does not depend on what is known of the value. -/
theorem Yields.seq {f : α → EStateM ε S β} {last : β → Prop} (first : Yields rules pre x post)
    (rest : ∀ a, Yields rules pre (f a) last) : Yields rules pre (x >>= f) last :=
  first.bind fun a => (rest a).mono And.left fun _ _ => id

/-- A test yields what both branches do. -/
theorem Yields.ite {c : Prop} [Decidable c] {y : EStateM ε S α}
    (yes : c → Yields rules pre x post) (no : ¬ c → Yields rules pre y post) :
    Yields rules pre (if c then x else y) post := by
  by_cases h : c
  · rw [if_pos h]
    exact yes h
  · rw [if_neg h]
    exact no h

end Emission
