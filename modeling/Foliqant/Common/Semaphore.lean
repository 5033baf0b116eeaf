import Foliqant.Common.Dict
import Mathlib.Data.List.Nodup

/-!
# A fair semaphore of an event loop

A permit is either free, or promised to a waiter whose future has its result, or held. A waiter stays
in the queue until its task runs again, so a promise can still be returned: the task may find itself
cancelled. Waiters are served in the order of their arrival.

`permits` counts the free and the promised permits. Acquiring and releasing change it by one, waking
waiters does not change it at all, and this is all that users of a semaphore need of it.
-/

/-- The future of a waiter. -/
inductive Wake where
  | pending | granted | cancelled
  deriving DecidableEq, Repr

/-- The free permits and the waiters, the first to be served first. -/
structure Semaphore (κ : Type*) where
  value : ℕ
  waiters : List (κ × Wake)
  deriving DecidableEq

namespace Semaphore

variable {κ : Type*}

/-- Whether a permit cannot be taken at once: a free permit belongs to those who already wait. -/
def locked (s : Semaphore κ) : Bool :=
  s.value = 0 || s.waiters.any (·.2 ≠ .cancelled)

/-- Give a result to the first future that has none. -/
def grantFirst : List (κ × Wake) → Option (List (κ × Wake))
  | [] => none
  | waiter :: rest =>
      if waiter.2 = .pending then some ((waiter.1, .granted) :: rest)
      else (grantFirst rest).map (waiter :: ·)

/-- Wake waiters as long as there are free permits and pending futures. -/
def wakeUp : ℕ → List (κ × Wake) → Semaphore κ
  | 0, waiters => ⟨0, waiters⟩
  | value + 1, waiters =>
      match grantFirst waiters with
      | none => ⟨value + 1, waiters⟩
      | some woken => wakeUp value woken

/-- Return a permit and wake the next waiter. -/
def release (s : Semaphore κ) : Semaphore κ :=
  match grantFirst s.waiters with
  | none => ⟨s.value + 1, s.waiters⟩
  | some woken => ⟨s.value, woken⟩

/-- Take a permit at once; only for a semaphore that is not locked. -/
def take (s : Semaphore κ) : Semaphore κ := ⟨s.value - 1, s.waiters⟩

/-- Wait at the end of the queue. -/
def wait (s : Semaphore κ) (key : κ) : Semaphore κ := ⟨s.value, s.waiters ++ [(key, .pending)]⟩

variable [DecidableEq κ]

/-- Cancel the future of a waiter; a future that has its result keeps it. -/
def cancel (s : Semaphore κ) (key : κ) : Semaphore κ :=
  match s.waiters.lookup key with
  | some .pending => ⟨s.value, Dict.set key .cancelled s.waiters⟩
  | _ => s

/-- The waiter runs again and keeps the permit it was promised. -/
def resume (s : Semaphore κ) (key : κ) : Semaphore κ :=
  wakeUp s.value (Dict.erase key s.waiters)

/-- The waiter runs again and is interrupted: a promised permit is returned. -/
def abandon (s : Semaphore κ) (key : κ) : Semaphore κ :=
  match s.waiters.lookup key with
  | some .granted => wakeUp (s.value + 1) (Dict.erase key s.waiters)
  | _ => wakeUp s.value (Dict.erase key s.waiters)

/-! ## Keys -/

omit [DecidableEq κ] in
/-- Granting a permit keeps the queue. -/
theorem keys_grantFirst {waiters woken : List (κ × Wake)} (h : grantFirst waiters = some woken) :
    Dict.keys woken = Dict.keys waiters := by
  induction waiters generalizing woken with
  | nil => cases h
  | cons waiter rest ih =>
    unfold grantFirst at h
    split at h
    · cases h
      rfl
    · obtain ⟨tail, ht, rfl⟩ := Option.map_eq_some_iff.mp h
      rw [Dict.keys_cons, Dict.keys_cons, ih ht]

omit [DecidableEq κ] in
/-- Waking up keeps the queue. -/
theorem keys_wakeUp (value : ℕ) (waiters : List (κ × Wake)) :
    Dict.keys (wakeUp value waiters).waiters = Dict.keys waiters := by
  induction value generalizing waiters with
  | zero => rfl
  | succ value ih =>
    unfold wakeUp
    cases h : grantFirst waiters with
    | none => rfl
    | some woken =>
      rw [← keys_grantFirst h]
      exact ih woken

omit [DecidableEq κ] in
/-- Releasing a permit keeps the queue. -/
@[simp] theorem keys_release (s : Semaphore κ) :
    Dict.keys s.release.waiters = Dict.keys s.waiters := by
  unfold release
  cases h : grantFirst s.waiters with
  | none => rfl
  | some woken => exact keys_grantFirst h

/-- A cancellation keeps the queue. -/
@[simp] theorem keys_cancel (s : Semaphore κ) (key : κ) :
    Dict.keys (s.cancel key).waiters = Dict.keys s.waiters := by
  unfold cancel
  split
  case h_1 h =>
    exact Dict.keys_set_of_mem (List.mem_map.mpr ⟨_, Dict.mem_of_lookup h, rfl⟩) _
  case h_2 => rfl

/-- Who resumes leaves the queue. -/
@[simp] theorem keys_resume (s : Semaphore κ) (key : κ) :
    Dict.keys (s.resume key).waiters = Dict.keys (Dict.erase key s.waiters) :=
  keys_wakeUp _ _

/-- Who gives up leaves the queue. -/
@[simp] theorem keys_abandon (s : Semaphore κ) (key : κ) :
    Dict.keys (s.abandon key).waiters = Dict.keys (Dict.erase key s.waiters) := by
  unfold abandon
  split <;> exact keys_wakeUp _ _

/-! ## Permits -/

/-- The waiters a permit is promised to. -/
def promised (waiters : List (κ × Wake)) : ℕ := waiters.countP (·.2 = .granted)

/-- The permits that no running task holds. -/
def permits (s : Semaphore κ) : ℕ := s.value + promised s.waiters

omit [DecidableEq κ] in
/-- Granting promises one permit more. -/
theorem promised_grantFirst {waiters woken : List (κ × Wake)}
    (h : grantFirst waiters = some woken) : promised woken = promised waiters + 1 := by
  induction waiters generalizing woken with
  | nil => cases h
  | cons waiter rest ih =>
    unfold grantFirst at h
    split at h
    case isTrue hp =>
      cases h
      simp [promised, hp]
    case isFalse =>
      obtain ⟨tail, ht, rfl⟩ := Option.map_eq_some_iff.mp h
      have := ih ht
      unfold promised at this ⊢
      rw [List.countP_cons, List.countP_cons]
      omega

omit [DecidableEq κ] in
/-- Waking up keeps the permits. -/
theorem permits_wakeUp (value : ℕ) (waiters : List (κ × Wake)) :
    (wakeUp value waiters).permits = value + promised waiters := by
  induction value generalizing waiters with
  | zero => rfl
  | succ value ih =>
    unfold wakeUp
    cases h : grantFirst waiters with
    | none => rfl
    | some woken =>
      have := promised_grantFirst h
      rw [ih woken]
      omega

omit [DecidableEq κ] in
/-- Releasing gives one permit back. -/
theorem permits_release (s : Semaphore κ) : s.release.permits = s.permits + 1 := by
  unfold release
  split
  case h_1 => exact Nat.add_right_comm _ _ _
  case h_2 woken h =>
    have := promised_grantFirst h
    simp only [permits]
    omega

omit [DecidableEq κ] in
/-- Taking takes one permit. -/
theorem permits_take {s : Semaphore κ} (h : s.locked = false) : s.take.permits + 1 = s.permits := by
  have hvalue : s.value ≠ 0 := by
    intro hv
    simp [locked, hv] at h
  simp only [permits, take]
  omega

omit [DecidableEq κ] in
/-- Waiting keeps the permits. -/
@[simp] theorem permits_wait (s : Semaphore κ) (key : κ) : (s.wait key).permits = s.permits := by
  simp [permits, promised, wait]

/-- Who leaves takes its promise along. -/
theorem promised_erase {waiters : List (κ × Wake)} {key : κ} {wake : Wake}
    (hn : (Dict.keys waiters).Nodup) (h : waiters.lookup key = some wake) :
    promised waiters = promised (Dict.erase key waiters) + if wake = .granted then 1 else 0 := by
  have := Dict.countP_erase (fun waiter : κ × Wake => decide (waiter.2 = .granted)) hn h
  simpa [promised] using this

/-- A cancellation keeps the permits. -/
theorem permits_cancel {s : Semaphore κ} (hn : (Dict.keys s.waiters).Nodup) (key : κ) :
    (s.cancel key).permits = s.permits := by
  unfold cancel
  split
  case h_1 h =>
    have herase := promised_erase hn h
    have hset := Dict.countP_set (fun waiter : κ × Wake => decide (waiter.2 = .granted))
      Wake.cancelled hn h
    have hset' : promised (Dict.set key .cancelled s.waiters)
        = promised (Dict.erase key s.waiters) := by
      simpa [promised] using hset
    simp only [permits, hset', herase]
    simp
  case h_2 => rfl

/-- A resumed waiter holds the permit it was promised. -/
theorem permits_resume {s : Semaphore κ} {key : κ} (hn : (Dict.keys s.waiters).Nodup)
    (h : s.waiters.lookup key = some .granted) : (s.resume key).permits + 1 = s.permits := by
  have herase := promised_erase hn h
  rw [if_pos rfl] at herase
  rw [resume, permits_wakeUp, permits, herase]
  omega

/-- An interrupted waiter leaves every permit behind. -/
theorem permits_abandon {s : Semaphore κ} {key : κ} {wake : Wake}
    (hn : (Dict.keys s.waiters).Nodup) (h : s.waiters.lookup key = some wake) :
    (s.abandon key).permits = s.permits := by
  have herase := promised_erase hn h
  unfold abandon
  rw [h]
  cases wake with
  | granted =>
    rw [if_pos rfl] at herase
    rw [permits_wakeUp, permits, herase]
    omega
  | pending | cancelled =>
    rw [if_neg (by simp)] at herase
    rw [permits_wakeUp, permits, herase]
    omega

end Semaphore
