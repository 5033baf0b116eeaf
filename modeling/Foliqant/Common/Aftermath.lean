import Mathlib.Data.List.Basic

/-!
# What may follow a failure

A log in which some events record a failure. It is sealed when nothing but the aftermath of a failure
follows one. Sealed parts compose: after a part without a failure comes any sealed part, and after a
failure come parts that are aftermath throughout.
-/

namespace Aftermath

variable {E F : Type} (failure : E → Option F) (follows : E → Prop)

/-- The failure that is recorded last. -/
def lastFailure (events : List E) : Option F := (events.filterMap failure).getLast?

/-- Only the aftermath follows a failure, and the last failure is known. -/
structure Sealed (events : List E) (last : Option F) : Prop where
  ordered : events.Pairwise fun first next => (failure first).isSome → follows next
  last : lastFailure failure events = last

variable {failure follows}

/-- The last failure of two runs in a row is that of the second, if it failed at all. -/
theorem lastFailure_append (events more : List E) : lastFailure failure (events ++ more) =
    (lastFailure failure more).or (lastFailure failure events) := by
  unfold lastFailure
  rw [List.filterMap_append, List.getLast?_append]

/-- There is no last failure exactly when no event failed. -/
theorem lastFailure_eq_none {events : List E} :
    lastFailure failure events = none ↔ ∀ event ∈ events, failure event = none := by
  rw [lastFailure, List.getLast?_eq_none_iff, List.filterMap_eq_nil_iff]

/-- A failure is known exactly when some event records one. -/
theorem Sealed.isSome {events : List E} {last : Option F} (h : Sealed failure follows events last) :
    last.isSome ↔ ∃ event ∈ events, (failure event).isSome := by
  constructor
  · intro some_
    by_contra none_
    have quiet : ∀ event ∈ events, failure event = none := fun event mem =>
      Option.not_isSome_iff_eq_none.mp fun recorded => none_ ⟨event, mem, recorded⟩
    rw [← h.last, lastFailure_eq_none.mpr quiet] at some_
    cases some_
  · rintro ⟨event, mem, recorded⟩
    by_contra none_
    have quiet := lastFailure_eq_none.mp (h.last.trans (Option.not_isSome_iff_eq_none.mp none_))
    rw [quiet event mem] at recorded
    cases recorded

/-- Whatever follows a failure is aftermath. -/
theorem Sealed.after {before rest : List E} {event : E} {last : Option F}
    (h : Sealed failure follows (before ++ event :: rest) last) (recorded : (failure event).isSome) :
    ∀ next ∈ rest, follows next := by
  obtain ⟨-, ordered, -⟩ := List.pairwise_append.mp h.ordered
  exact fun next mem => (List.pairwise_cons.mp ordered).1 next mem recorded

/-- Events without a failure. -/
theorem sealed_quiet {events : List E} (quiet : ∀ event ∈ events, failure event = none) :
    Sealed failure follows events none := by
  refine ⟨List.pairwise_of_forall_mem_list fun first mem _ _ recorded => ?_,
    lastFailure_eq_none.mpr quiet⟩
  rw [quiet first mem] at recorded
  cases recorded

/-- Any sealed part follows a part without a failure. -/
theorem Sealed.append {events more : List E} {last : Option F}
    (first : Sealed failure follows events none) (rest : Sealed failure follows more last) :
    Sealed failure follows (events ++ more) last := by
  have quiet := lastFailure_eq_none.mp first.last
  refine ⟨List.pairwise_append.mpr ⟨first.ordered, rest.ordered, fun event mem _ _ recorded => ?_⟩,
    ?_⟩
  · rw [quiet event mem] at recorded
    cases recorded
  · rw [lastFailure_append, first.last, Option.or_none]
    exact rest.last

/-- Aftermath follows any sealed part. -/
theorem Sealed.then {events more : List E} {last last' : Option F}
    (first : Sealed failure follows events last) (aftermath : ∀ event ∈ more, follows event)
    (known : lastFailure failure more = last') :
    Sealed failure follows (events ++ more) (last'.or last) := by
  refine ⟨List.pairwise_append.mpr ⟨first.ordered, ?_, fun _ _ next mem _ => aftermath next mem⟩, ?_⟩
  · exact List.pairwise_of_forall_mem_list fun _ _ next mem _ => aftermath next mem
  · rw [lastFailure_append, first.last, known]

end Aftermath
