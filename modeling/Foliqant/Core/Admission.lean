import Foliqant.Common.Machine
import Foliqant.Common.Semaphore
import Foliqant.Core.Errors

/-!
# Admission

`CapacityLimiter` bounds the running and the waiting operations of one resource. A call of `slot` is
cut at its suspension points: it arrives, it may wait for a permit, it resumes with the permit or with
a cancellation, its body ends. Between two of these steps the event loop runs anything else, so the
clock moves on, timers fire and tasks are cancelled in any order.

`Admission.machine` has all interleavings of these steps. The counters are integers, as in the source:
that they never fall below zero is a consequence of the invariant and not of the type.
-/

namespace Foliqant.Core

/-! ## The limiter -/

/-- Limits a limiter can be created with. -/
structure Capacity where
  concurrency : ℕ
  queueLimit : ℕ
  concurrency_pos : 1 ≤ concurrency

/-- `CapacityLimiter.__init__` refuses other limits with a `ValueError`. -/
def Capacity.ofInts (concurrency queueLimit : ℤ) : Option Capacity :=
  if h : concurrency < 1 ∨ queueLimit < 0 then none
  else some ⟨concurrency.toNat, queueLimit.toNat, by omega⟩

/-- Running and waiting operations together. -/
def Capacity.maximum (capacity : Capacity) : ℕ := capacity.concurrency + capacity.queueLimit

/-- The counters of a limiter with its semaphore. -/
structure CapacityLimiter (κ : Type*) where
  semaphore : Semaphore κ
  maximum : ℕ
  admitted : ℤ
  active : ℤ
  deriving DecidableEq

namespace CapacityLimiter

variable {κ T : Type*} [LinearOrder T]

/-- A limiter that nobody has entered. -/
def new (capacity : Capacity) : CapacityLimiter κ where
  semaphore := ⟨capacity.concurrency, []⟩
  maximum := capacity.maximum
  admitted := 0
  active := 0

/-- The admitted callers that are not running. -/
def waiting (limiter : CapacityLimiter κ) : ℤ := limiter.admitted - limiter.active

/-- The rejection of a call for which there is no room. -/
def overloaded : ServiceError := { ErrorCode.capacityExceeded.error with retryable := true }

/-- An overload is no error of time. -/
theorem overloaded_ne (code : ErrorCode) : overloaded ≠ code.error := by
  intro h
  exact absurd (congrArg ServiceError.retryable h) (by simp [overloaded, ErrorCode.error])

/-- The checks at the entry of `slot`; a deadline that is not finite is `none`. -/
def enter (limiter : CapacityLimiter κ) (deadline : Option T) (timeout : ErrorCode) (now : T) :
    Except ServiceError (CapacityLimiter κ × T) :=
  match deadline with
  | none => .error timeout.error
  | some deadline =>
      if deadline ≤ now then .error timeout.error
      else if (limiter.maximum : ℤ) ≤ limiter.admitted then
        .error overloaded
      else .ok ({ limiter with admitted := limiter.admitted + 1 }, deadline)

/-- What lets a caller in. -/
theorem enter_eq_ok {limiter next : CapacityLimiter κ} {deadline : Option T} {timeout : ErrorCode}
    {now due : T} (h : limiter.enter deadline timeout now = .ok (next, due)) :
    limiter.admitted < limiter.maximum ∧
    next = { limiter with admitted := limiter.admitted + 1 } := by
  unfold enter at h
  split at h
  · cases h
  · split at h
    · cases h
    · split at h
      · cases h
      case isFalse hroom =>
        cases h
        exact ⟨not_le.mp hroom, rfl⟩

/-- What keeps a caller out. -/
theorem enter_eq_error {limiter : CapacityLimiter κ} {deadline : Option T} {timeout : ErrorCode}
    {now : T} {error : ServiceError} (h : limiter.enter deadline timeout now = .error error) :
    error = timeout.error ∧ (∀ due ∈ deadline, due ≤ now) ∨
      error = overloaded ∧ limiter.maximum ≤ limiter.admitted ∧ ∃ due ∈ deadline, now < due := by
  unfold enter at h
  split at h
  case h_1 =>
    cases h
    exact .inl ⟨rfl, by simp⟩
  case h_2 due =>
    split at h
    case isTrue hlate =>
      cases h
      refine .inl ⟨rfl, ?_⟩
      rintro _ ⟨⟩
      exact hlate
    case isFalse hopen =>
      split at h
      case isTrue hfull =>
        cases h
        exact .inr ⟨rfl, hfull, due, rfl, not_le.mp hopen⟩
      case isFalse => cases h

/-- A deadline that has passed or is not finite is refused before the load is looked at. -/
theorem enter_late (limiter : CapacityLimiter κ) {deadline : Option T} {now : T}
    (late : ∀ due ∈ deadline, due ≤ now) (timeout : ErrorCode) :
    limiter.enter deadline timeout now = .error timeout.error := by
  cases deadline with
  | none => rfl
  | some due => exact if_pos (late due rfl)

/-- The permit is there. -/
def acquired (limiter : CapacityLimiter κ) : CapacityLimiter κ :=
  { limiter with active := limiter.active + 1 }

/-- The `finally` block of `slot`. -/
def leave (limiter : CapacityLimiter κ) (acquired : Bool) : CapacityLimiter κ :=
  if acquired then
    { limiter with
      active := limiter.active - 1
      semaphore := limiter.semaphore.release
      admitted := limiter.admitted - 1 }
  else { limiter with admitted := limiter.admitted - 1 }

end CapacityLimiter

/-! ## Calls of `slot` in an event loop -/

/-- Where an admitted call is. While it waits, its own timer and other tasks can cancel its task. -/
inductive SlotPhase where
  | waiting (expired cancelled : Bool)
  | running
  deriving DecidableEq, Repr

/-- An admitted call that has not left. -/
structure Slot (T : Type*) where
  deadline : T
  timeout : ErrorCode
  phase : SlotPhase
  deriving DecidableEq

/-- The start of a body. -/
structure BodyStart (T : Type*) where
  deadline : T
  time : T

/-- How a call left `slot`. -/
inductive SlotEnd where
  | failed (error : ServiceError)
  | cancelled
  /-- The body returned or raised. -/
  | done
  deriving DecidableEq

/-- The state of a limiter with its callers. -/
structure Admission (κ T : Type*) where
  limiter : CapacityLimiter κ
  clock : T
  slots : List (κ × Slot T)
  starts : List (BodyStart T)
  ended : List (κ × SlotEnd)

/-- A step of the event loop; `now` and `later` are readings of its clock. -/
inductive AdmissionEvent (κ T : Type*) where
  /-- A task calls `slot` and runs until it waits, is in its body or has left. -/
  | arrive (caller : κ) (deadline : Option T) (timeout : ErrorCode) (now later : T)
  /-- The timer of a waiting call; the loop may run it a clock resolution early. -/
  | expire (caller : κ)
  /-- Another task cancels the task of the call. -/
  | cancel (caller : κ)
  /-- The task of a waiting call runs again because its future is done. -/
  | resume (caller : κ) (now : T)
  /-- The body of a call ends. -/
  | finish (caller : κ)

/-- The call an event is about. -/
def AdmissionEvent.caller {κ T : Type*} : AdmissionEvent κ T → κ
  | .arrive caller _ _ _ _ | .expire caller | .cancel caller | .resume caller _
  | .finish caller => caller

namespace Admission

variable {κ T : Type*} [DecidableEq κ] [LinearOrder T]

/-- A limiter without callers. -/
def new (capacity : Capacity) (clock : T) : Admission κ T where
  limiter := .new capacity
  clock := clock
  slots := []
  starts := []
  ended := []

/-- The call leaves `slot`. -/
def leave (s : Admission κ T) (caller : κ) (acquired : Bool) (result : SlotEnd) : Admission κ T :=
  { s with
    limiter := s.limiter.leave acquired
    slots := Dict.erase caller s.slots
    ended := (caller, result) :: s.ended }

/-- From the acquired permit to the body: the deadline is read once more. -/
def begin (s : Admission κ T) (caller : κ) (slot : Slot T) (now : T) : Admission κ T :=
  let s := { s with limiter := s.limiter.acquired, clock := now }
  if slot.deadline ≤ now then s.leave caller true (.failed slot.timeout.error)
  else
    { s with
      slots := Dict.set caller { slot with phase := .running } s.slots
      starts := ⟨slot.deadline, now⟩ :: s.starts }

/-- Change the semaphore. -/
def withSemaphore (s : Admission κ T) (semaphore : Semaphore κ) : Admission κ T :=
  { s with limiter := { s.limiter with semaphore } }

/-- Cancel the task of a waiting call: its future is cancelled when it has no result yet. -/
def interrupt (s : Admission κ T) (caller : κ) (slot : Slot T) (expired cancelled : Bool) :
    Admission κ T :=
  { s.withSemaphore (s.limiter.semaphore.cancel caller) with
    slots := Dict.set caller { slot with phase := .waiting expired cancelled } s.slots }

/-- The admitted call asks for a permit. -/
def acquire (s : Admission κ T) (caller : κ) (slot : Slot T) (later : T) : Admission κ T :=
  if s.limiter.semaphore.locked then
    { s.withSemaphore (s.limiter.semaphore.wait caller) with clock := later }
  else (s.withSemaphore s.limiter.semaphore.take).begin caller slot later

/-- One event of a caller or of the event loop. -/
def step (s : Admission κ T) : AdmissionEvent κ T → Option (Admission κ T)
  | .arrive caller deadline timeout now later =>
      if caller ∈ Dict.keys s.slots ∨ now < s.clock ∨ later < now then none
      else
        match s.limiter.enter deadline timeout now with
        | .error error => some { s with clock := later, ended := (caller, .failed error) :: s.ended }
        | .ok (limiter, deadline) =>
            let slot := ⟨deadline, timeout, .waiting false false⟩
            some ({ s with limiter, slots := Dict.set caller slot s.slots }.acquire caller slot later)
  | .expire caller =>
      match s.slots.lookup caller with
      | some slot =>
          match slot.phase with
          | .waiting _ cancelled => some (s.interrupt caller slot true cancelled)
          | .running => none
      | none => none
  | .cancel caller =>
      match s.slots.lookup caller with
      | some slot =>
          match slot.phase with
          | .waiting expired _ => some (s.interrupt caller slot expired true)
          -- The body gets the cancellation; the slot is left when the body ends.
          | .running => some s
      | none => none
  | .resume caller now =>
      match s.slots.lookup caller, s.limiter.semaphore.waiters.lookup caller with
      | some slot, some wake =>
          match slot.phase with
          | .running => none
          | .waiting expired cancelled =>
              if wake = .pending ∨ now < s.clock then none
              else if wake = .granted ∧ expired = false ∧ cancelled = false then
                some ((s.withSemaphore (s.limiter.semaphore.resume caller)).begin caller slot now)
              else
                -- A timeout counts as one only when nobody else cancelled the task.
                let result := if cancelled then .cancelled else .failed slot.timeout.error
                some { (s.withSemaphore (s.limiter.semaphore.abandon caller)).leave caller false
                  result with clock := now }
      | _, _ => none
  | .finish caller =>
      match s.slots.lookup caller with
      | some slot =>
          match slot.phase with
          | .running => some (s.leave caller true .done)
          | .waiting _ _ => none
      | none => none

/-- All runs of a limiter. -/
def machine (capacity : Capacity) (clock : T) :
    Machine (Admission κ T) (AdmissionEvent κ T) where
  start := new capacity clock
  step := step

/-- The calls whose body runs. -/
def running (s : Admission κ T) : ℕ := s.slots.countP (·.2.phase = .running)

/-- The admitted calls whose body does not run yet. -/
def waiting (s : Admission κ T) : ℕ := s.slots.countP (·.2.phase ≠ .running)

omit [DecidableEq κ] [LinearOrder T] in
/-- Every caller inside runs or waits. -/
theorem running_add_waiting (s : Admission κ T) : s.running + s.waiting = s.slots.length := by
  have h : s.slots.length = _ :=
    List.length_eq_countP_add_countP fun slot : κ × Slot T => decide (slot.2.phase = .running)
  simpa [running, waiting] using h.symm

/-! ## The invariant -/

/-- The counters and the semaphore agree with the calls in flight; `held` permits are taken by calls
that are neither waiting nor running yet. -/
structure Consistent (capacity : Capacity) (held : ℕ) (s : Admission κ T) : Prop where
  maximum : s.limiter.maximum = capacity.maximum
  nodup : (Dict.keys s.slots).Nodup
  queued : (Dict.keys s.limiter.semaphore.waiters).Nodup
  waiters : ∀ caller ∈ Dict.keys s.limiter.semaphore.waiters,
    ∃ slot, s.slots.lookup caller = some slot ∧ slot.phase ≠ .running
  admitted : s.limiter.admitted = s.slots.length
  active : s.limiter.active = s.running
  permits : s.limiter.semaphore.permits + s.running + held = capacity.concurrency
  bounded : s.slots.length ≤ capacity.maximum
  punctual : ∀ start ∈ s.starts, start.time < start.deadline

/-- The start. -/
theorem consistent_new (capacity : Capacity) (clock : T) :
    Consistent capacity 0 (new capacity clock : Admission κ T) where
  maximum := rfl
  nodup := List.nodup_nil
  queued := List.nodup_nil
  waiters _ h := by cases h
  admitted := rfl
  active := rfl
  permits := rfl
  bounded := Nat.zero_le _
  punctual _ h := by cases h

variable {capacity : Capacity} {held : ℕ} {s : Admission κ T} {caller : κ} {slot : Slot T}

omit [LinearOrder T] in
/-- Erasing a call changes the number of running calls by its own. -/
theorem running_erase (hn : (Dict.keys s.slots).Nodup) (h : s.slots.lookup caller = some slot) :
    s.running = (Dict.erase caller s.slots).countP (·.2.phase = .running)
      + if slot.phase = .running then 1 else 0 := by
  simpa [running] using Dict.countP_erase (fun slot : κ × Slot T => decide (slot.2.phase = .running))
    hn h

omit [LinearOrder T] in
/-- Changing a caller that runs or waits. -/
theorem running_set {new : Slot T} (hn : (Dict.keys s.slots).Nodup)
    (h : s.slots.lookup caller = some slot) :
    (Dict.set caller new s.slots).countP (·.2.phase = .running)
      = (Dict.erase caller s.slots).countP (·.2.phase = .running)
        + if new.phase = .running then 1 else 0 := by
  simpa using Dict.countP_set (fun slot : κ × Slot T => decide (slot.2.phase = .running)) new hn h

/-- Forgetting a caller that is not queued. -/
theorem Consistent.waiters_erase (h : Consistent capacity held s)
    (hw : caller ∉ Dict.keys s.limiter.semaphore.waiters) :
    ∀ other ∈ Dict.keys s.limiter.semaphore.waiters,
      ∃ slot, (Dict.erase caller s.slots).lookup other = some slot ∧ slot.phase ≠ .running := by
  intro other ho
  have hne : other ≠ caller := by
    rintro rfl
    exact hw ho
  rw [Dict.lookup_erase_of_ne hne]
  exact h.waiters other ho

/-- A running call leaves and returns its permit. -/
theorem Consistent.leave_running (h : Consistent capacity held s)
    (hs : s.slots.lookup caller = some slot) (hphase : slot.phase = .running)
    (hw : caller ∉ Dict.keys s.limiter.semaphore.waiters) (result : SlotEnd) :
    Consistent capacity held (s.leave caller true result) := by
  have hlength := Dict.length_erase h.nodup hs
  have hrunning := running_erase h.nodup hs
  rw [if_pos hphase] at hrunning
  have hadmitted := h.admitted
  have hactive := h.active
  have hpermits := h.permits
  refine ⟨h.maximum, Dict.nodup_keys_erase h.nodup caller, ?_, ?_, ?_, ?_, ?_, ?_, h.punctual⟩
  · simpa [Admission.leave, CapacityLimiter.leave] using h.queued
  · simpa [Admission.leave, CapacityLimiter.leave] using h.waiters_erase hw
  · simp only [Admission.leave, CapacityLimiter.leave, if_true]
    omega
  · simp only [Admission.leave, CapacityLimiter.leave, if_true]
    rw [hactive, hrunning]
    simp [running]
  · simp only [Admission.leave, CapacityLimiter.leave, if_true, Semaphore.permits_release]
    rw [hrunning] at hpermits
    show _ + 1 + (Dict.erase caller s.slots).countP _ + held = _
    omega
  · exact (Nat.le_succ _).trans (hlength.ge.trans h.bounded)

/-- A call without a permit leaves. -/
theorem Consistent.leave_waiting (h : Consistent capacity held s)
    (hs : s.slots.lookup caller = some slot) (hphase : slot.phase ≠ .running)
    (hw : caller ∉ Dict.keys s.limiter.semaphore.waiters) (result : SlotEnd) :
    Consistent capacity held (s.leave caller false result) := by
  have hlength := Dict.length_erase h.nodup hs
  have hrunning := running_erase h.nodup hs
  rw [if_neg hphase, Nat.add_zero] at hrunning
  have hadmitted := h.admitted
  refine ⟨h.maximum, Dict.nodup_keys_erase h.nodup caller, h.queued, h.waiters_erase hw, ?_, ?_, ?_,
    ?_, h.punctual⟩
  · simp only [Admission.leave, CapacityLimiter.leave, Bool.false_eq_true, if_false]
    omega
  · exact h.active.trans (congrArg Nat.cast hrunning)
  · exact (congrArg (_ + · + held) hrunning.symm).trans h.permits
  · exact (Nat.le_succ _).trans (hlength.ge.trans h.bounded)

/-- Changing a call that neither runs nor starts to run keeps all numbers. -/
theorem Consistent.set_waiting (h : Consistent capacity held s)
    (hs : s.slots.lookup caller = some slot) (hphase : slot.phase ≠ .running) {new : Slot T}
    (hnew : new.phase ≠ .running) :
    Consistent capacity held { s with slots := Dict.set caller new s.slots } := by
  have hkeys : Dict.keys (Dict.set caller new s.slots) = Dict.keys s.slots :=
    Dict.keys_set_of_mem (List.mem_map.mpr ⟨_, Dict.mem_of_lookup hs, rfl⟩) new
  have hlength := Dict.length_set new hs
  have hrunning : (Dict.set caller new s.slots).countP (·.2.phase = .running) = s.running := by
    rw [running_set h.nodup hs, running_erase h.nodup hs, if_neg hphase, if_neg hnew]
  refine ⟨h.maximum, hkeys ▸ h.nodup, h.queued, ?_, ?_, ?_, ?_, hlength.le.trans h.bounded,
    h.punctual⟩
  · intro other ho
    by_cases he : other = caller
    · exact ⟨new, he ▸ Dict.lookup_set_self caller new s.slots, hnew⟩
    · rw [Dict.lookup_set_of_ne he]
      exact h.waiters other ho
  · rw [h.admitted, hlength]
  · exact h.active.trans (congrArg Nat.cast hrunning.symm)
  · exact (congrArg (_ + · + held) hrunning).trans h.permits

/-- A call with a permit in hand starts to run. -/
theorem Consistent.set_running (h : Consistent capacity 1 s)
    (hs : s.slots.lookup caller = some slot) (hphase : slot.phase ≠ .running)
    (hw : caller ∉ Dict.keys s.limiter.semaphore.waiters) (now : T) :
    Consistent capacity 0
      { s with
        limiter := s.limiter.acquired
        clock := now
        slots := Dict.set caller { slot with phase := .running } s.slots } := by
  have hkeys : Dict.keys (Dict.set caller { slot with phase := .running } s.slots)
      = Dict.keys s.slots :=
    Dict.keys_set_of_mem (List.mem_map.mpr ⟨_, Dict.mem_of_lookup hs, rfl⟩) _
  have hlength := Dict.length_set { slot with phase := .running } hs
  have hrunning : (Dict.set caller { slot with phase := .running } s.slots).countP
      (·.2.phase = .running) = s.running + 1 := by
    rw [running_set h.nodup hs, running_erase h.nodup hs, if_neg hphase, if_pos rfl]
  have hactive := h.active
  have hpermits := h.permits
  refine ⟨h.maximum, hkeys ▸ h.nodup, h.queued, ?_, ?_, ?_, ?_, hlength.le.trans h.bounded,
    h.punctual⟩
  · intro other ho
    have hne : other ≠ caller := by
      rintro rfl
      exact hw ho
    rw [Dict.lookup_set_of_ne hne]
    exact h.waiters other ho
  · exact h.admitted.trans (congrArg Nat.cast hlength.symm)
  · show s.limiter.active + 1 = ((Dict.set caller _ s.slots).countP _ : ℕ)
    rw [hrunning, hactive, Nat.cast_add_one]
  · show s.limiter.semaphore.permits + (Dict.set caller _ s.slots).countP _ + 0 = _
    rw [hrunning]
    omega

/-- From the permit on, a call either runs before its deadline or has left and returned the permit. -/
theorem Consistent.begin (h : Consistent capacity 1 s) (hs : s.slots.lookup caller = some slot)
    (hphase : slot.phase ≠ .running) (hw : caller ∉ Dict.keys s.limiter.semaphore.waiters) (now : T) :
    Consistent capacity 0 (s.begin caller slot now) := by
  have hset := h.set_running hs hphase hw now
  unfold Admission.begin
  by_cases hd : slot.deadline ≤ now
  · have hleft := hset.leave_running (Dict.lookup_set_self caller _ s.slots) rfl hw
      (.failed slot.timeout.error)
    rw [if_pos hd]
    simpa only [Admission.leave, Dict.erase_set] using hleft
  · rw [if_neg hd]
    refine { hset with punctual := ?_ }
    intro start hstart
    rcases List.mem_cons.mp hstart with rfl | hstart
    · exact not_le.mp hd
    · exact h.punctual start hstart

/-- A change of the semaphore that keeps its waiters among the calls. -/
theorem Consistent.withSemaphore (h : Consistent capacity held s) {semaphore : Semaphore κ}
    {held' : ℕ} (hkeys : (Dict.keys semaphore.waiters).Sublist
      (Dict.keys s.limiter.semaphore.waiters))
    (hpermits : semaphore.permits + held' = s.limiter.semaphore.permits + held) :
    Consistent capacity held' (s.withSemaphore semaphore) := by
  have hsum := h.permits
  refine ⟨h.maximum, h.nodup, hkeys.nodup h.queued, fun other ho => h.waiters other (hkeys.mem ho),
    h.admitted, h.active, ?_, h.bounded, h.punctual⟩
  show semaphore.permits + s.running + held' = _
  omega

/-! ## Steps -/

/-- Only callers inside are queued. -/
theorem Consistent.notMem_waiters (h : Consistent capacity held s)
    (hs : caller ∉ Dict.keys s.slots) : caller ∉ Dict.keys s.limiter.semaphore.waiters := by
  intro hw
  obtain ⟨slot, hslot, -⟩ := h.waiters caller hw
  rw [Dict.lookup_eq_none.mpr hs] at hslot
  cases hslot

/-- A running caller is not queued. -/
theorem Consistent.running_notMem (h : Consistent capacity held s)
    (hs : s.slots.lookup caller = some slot) (hphase : slot.phase = .running) :
    caller ∉ Dict.keys s.limiter.semaphore.waiters := by
  intro hw
  obtain ⟨other, hother, hne⟩ := h.waiters caller hw
  rw [hs] at hother
  cases hother
  exact hne hphase

/-- A new call is counted while there is room for it. -/
theorem Consistent.entered (h : Consistent capacity held s) (hs : caller ∉ Dict.keys s.slots)
    (hroom : s.limiter.admitted < s.limiter.maximum) (hphase : slot.phase ≠ .running) :
    Consistent capacity held
      { s with
        limiter := { s.limiter with admitted := s.limiter.admitted + 1 }
        slots := Dict.set caller slot s.slots } := by
  have hset : Dict.set caller slot s.slots = s.slots ++ [(caller, slot)] := Dict.set_of_notMem hs slot
  have hlength : (Dict.set caller slot s.slots).length = s.slots.length + 1 := by
    rw [hset, List.length_append]
    rfl
  have hrunning : (Dict.set caller slot s.slots).countP (·.2.phase = .running) = s.running := by
    rw [hset, List.countP_append, running]
    simp [hphase]
  have hadmitted := h.admitted
  have hmaximum := h.maximum
  refine ⟨h.maximum, Dict.nodup_keys_set h.nodup slot, h.queued, ?_, ?_, ?_, ?_, ?_, h.punctual⟩
  · intro other ho
    have hne : other ≠ caller := by
      rintro rfl
      exact h.notMem_waiters hs ho
    rw [Dict.lookup_set_of_ne hne]
    exact h.waiters other ho
  · show s.limiter.admitted + 1 = ((Dict.set caller slot s.slots).length : ℕ)
    omega
  · exact h.active.trans (congrArg Nat.cast hrunning.symm)
  · exact (congrArg (_ + · + held) hrunning).trans h.permits
  · show (Dict.set caller slot s.slots).length ≤ _
    omega

/-- An admitted call waits, runs or has left again. -/
theorem Consistent.acquire (h : Consistent capacity 0 s) (hs : s.slots.lookup caller = some slot)
    (hphase : slot.phase ≠ .running) (hw : caller ∉ Dict.keys s.limiter.semaphore.waiters)
    (later : T) : Consistent capacity 0 (s.acquire caller slot later) := by
  unfold Admission.acquire
  split
  case isTrue =>
    refine { h with queued := ?_, waiters := ?_, permits := ?_ }
    · simp only [Admission.withSemaphore, Semaphore.wait, Dict.keys, List.map_append]
      refine List.Nodup.append h.queued (List.nodup_singleton caller) ?_
      rintro other ho hc
      rw [List.mem_singleton.mp hc] at ho
      exact hw ho
    · intro other ho
      simp only [Admission.withSemaphore, Semaphore.wait, Dict.keys, List.map_append,
        List.mem_append] at ho
      rcases ho with ho | ho
      · exact h.waiters other ho
      · rw [List.mem_singleton.mp ho]
        exact ⟨slot, hs, hphase⟩
    · have hpermits := h.permits
      rwa [← Semaphore.permits_wait _ caller] at hpermits
  case isFalse hl =>
    have htake := Semaphore.permits_take (Bool.eq_false_iff.mpr hl)
    have held : Consistent capacity 1 (s.withSemaphore s.limiter.semaphore.take) :=
      h.withSemaphore (List.Sublist.refl _) htake
    exact held.begin hs hphase hw later

/-- A timer or another task cancels a call that waits. -/
theorem Consistent.interrupt (h : Consistent capacity 0 s) (hs : s.slots.lookup caller = some slot)
    (hphase : slot.phase ≠ .running) (expired cancelled : Bool) :
    Consistent capacity 0 (s.interrupt caller slot expired cancelled) := by
  have hsemaphore : Consistent capacity 0
      (s.withSemaphore (s.limiter.semaphore.cancel caller)) := by
    refine h.withSemaphore ?_ ?_
    · rw [Semaphore.keys_cancel]
    · rw [Semaphore.permits_cancel h.queued]
  exact hsemaphore.set_waiting hs hphase (by simp)

/-- Forgetting a caller keeps the order of the others. -/
theorem keys_erase_sublist (waiters : List (κ × Wake)) (caller : κ) :
    (Dict.keys (Dict.erase caller waiters)).Sublist (Dict.keys waiters) := by
  rw [Dict.keys_erase]
  exact List.filter_sublist

/-- A call resumes with the permit it was promised. -/
theorem Consistent.resume (h : Consistent capacity 0 s) (hs : s.slots.lookup caller = some slot)
    (hphase : slot.phase ≠ .running)
    (hw : s.limiter.semaphore.waiters.lookup caller = some .granted) (now : T) :
    Consistent capacity 0
      ((s.withSemaphore (s.limiter.semaphore.resume caller)).begin caller slot now) := by
  have held : Consistent capacity 1 (s.withSemaphore (s.limiter.semaphore.resume caller)) := by
    refine h.withSemaphore ?_ (Semaphore.permits_resume h.queued hw)
    rw [Semaphore.keys_resume]
    exact keys_erase_sublist _ _
  refine held.begin hs hphase ?_ now
  simp [Admission.withSemaphore, Dict.mem_keys_erase]

/-- A call that was cancelled while it waited leaves without a permit. -/
theorem Consistent.abandon (h : Consistent capacity 0 s) (hs : s.slots.lookup caller = some slot)
    (hphase : slot.phase ≠ .running) {wake : Wake}
    (hw : s.limiter.semaphore.waiters.lookup caller = some wake) (result : SlotEnd) :
    Consistent capacity 0
      ((s.withSemaphore (s.limiter.semaphore.abandon caller)).leave caller false result) := by
  have hsemaphore : Consistent capacity 0
      (s.withSemaphore (s.limiter.semaphore.abandon caller)) := by
    refine h.withSemaphore ?_ (congrArg (· + 0) (Semaphore.permits_abandon h.queued hw))
    rw [Semaphore.keys_abandon]
    exact keys_erase_sublist _ _
  refine hsemaphore.leave_waiting hs hphase ?_ result
  simp [Admission.withSemaphore, Dict.mem_keys_erase]

/-- What a step of the event loop can do. -/
inductive Stepped (s : Admission κ T) : AdmissionEvent κ T → Admission κ T → Prop
  | rejected {caller : κ} {deadline timeout now later error}
      (fresh : caller ∉ Dict.keys s.slots)
      (refused : s.limiter.enter deadline timeout now = .error error) :
      Stepped s (.arrive caller deadline timeout now later)
        { s with clock := later, ended := (caller, .failed error) :: s.ended }
  | admitted {caller : κ} {deadline timeout now later limiter due} {slot : Slot T}
      (fresh : caller ∉ Dict.keys s.slots)
      (accepted : s.limiter.enter deadline timeout now = .ok (limiter, due))
      (slot_eq : slot = ⟨due, timeout, .waiting false false⟩) :
      Stepped s (.arrive caller deadline timeout now later)
        ({ s with limiter, slots := Dict.set caller slot s.slots }.acquire caller slot later)
  | expired {caller : κ} {slot : Slot T} {expired cancelled}
      (found : s.slots.lookup caller = some slot) (waits : slot.phase = .waiting expired cancelled) :
      Stepped s (.expire caller) (s.interrupt caller slot true cancelled)
  | cancelled {caller : κ} {slot : Slot T} {expired cancelled}
      (found : s.slots.lookup caller = some slot) (waits : slot.phase = .waiting expired cancelled) :
      Stepped s (.cancel caller) (s.interrupt caller slot expired true)
  | bodyCancelled {caller : κ} {slot : Slot T} (found : s.slots.lookup caller = some slot)
      (runs : slot.phase = .running) : Stepped s (.cancel caller) s
  | resumed {caller : κ} {slot : Slot T} {now} (found : s.slots.lookup caller = some slot)
      (waits : slot.phase = .waiting false false)
      (granted : s.limiter.semaphore.waiters.lookup caller = some .granted) :
      Stepped s (.resume caller now)
        ((s.withSemaphore (s.limiter.semaphore.resume caller)).begin caller slot now)
  | abandoned {caller : κ} {slot : Slot T} {expired cancelled wake now result}
      (found : s.slots.lookup caller = some slot) (waits : slot.phase = .waiting expired cancelled)
      (queued : s.limiter.semaphore.waiters.lookup caller = some wake)
      (ends : result = .cancelled ∨ result = .failed slot.timeout.error) :
      Stepped s (.resume caller now)
        { (s.withSemaphore (s.limiter.semaphore.abandon caller)).leave caller false result with
          clock := now }
  | finished {caller : κ} {slot : Slot T} (found : s.slots.lookup caller = some slot)
      (runs : slot.phase = .running) : Stepped s (.finish caller) (s.leave caller true .done)

/-- Every event does one of the listed things. -/
theorem stepped {event : AdmissionEvent κ T} {next : Admission κ T}
    (taken : s.step event = some next) : Stepped s event next := by
  cases event with
  | arrive caller deadline timeout now later =>
    simp only [step] at taken
    split at taken
    case isTrue => cases taken
    case isFalse hfresh =>
      split at taken
      case h_1 refused =>
        cases taken
        -- a rejected caller takes no slot
        exact .rejected (fun hc => hfresh (.inl hc)) refused
      case h_2 limiter due accepted =>
        cases taken
        exact .admitted (fun hc => hfresh (.inl hc)) accepted rfl
  | expire caller =>
    simp only [step] at taken
    split at taken
    case h_2 => cases taken
    case h_1 slot found =>
      split at taken
      case h_2 => cases taken
      case h_1 waits =>
        cases taken
        exact .expired found waits
  | cancel caller =>
    simp only [step] at taken
    split at taken
    case h_2 => cases taken
    case h_1 slot found =>
      split at taken
      case h_1 waits =>
        cases taken
        -- a cancellation reaches a waiting caller in the wait, and a running one in its body
        exact .cancelled found waits
      case h_2 runs =>
        cases taken
        exact .bodyCancelled found runs
  | resume caller now =>
    simp only [step] at taken
    split at taken
    case h_2 => cases taken
    case h_1 slot wake found queued =>
      split at taken
      case h_1 => cases taken
      case h_2 expired cancelled waits =>
        split at taken
        case isTrue => cases taken
        case isFalse =>
          split at taken
          case isTrue hgranted =>
            -- the wake-up is a grant, and the caller neither expired nor was cancelled
            obtain ⟨rfl, rfl, rfl⟩ := hgranted
            cases taken
            exact .resumed found waits queued
          case isFalse =>
            cases taken
            refine .abandoned found waits queued ?_
            cases cancelled with
            | true => exact .inl rfl
            | false => exact .inr rfl
  | finish caller =>
    simp only [step] at taken
    split at taken
    case h_2 => cases taken
    case h_1 slot found =>
      split at taken
      case h_2 => cases taken
      case h_1 runs =>
        cases taken
        exact .finished found runs

/-! ## Where a call is after a step -/

/-- A caller that begins runs or leaves. -/
theorem slots_begin (s : Admission κ T) (caller : κ) (slot : Slot T) (now : T) :
    (s.begin caller slot now).slots = Dict.erase caller s.slots ∨
      (s.begin caller slot now).slots
        = Dict.set caller { slot with phase := .running } s.slots := by
  unfold Admission.begin
  by_cases hd : slot.deadline ≤ now
  · rw [if_pos hd]
    exact .inl rfl
  · rw [if_neg hd]
    exact .inr rfl

/-- A caller that asks for a permit waits, runs or leaves. -/
theorem slots_acquire (s : Admission κ T) (caller : κ) (slot : Slot T) (later : T) :
    (s.acquire caller slot later).slots = s.slots ∨
      (s.acquire caller slot later).slots = Dict.erase caller s.slots ∨
      (s.acquire caller slot later).slots
        = Dict.set caller { slot with phase := .running } s.slots := by
  unfold Admission.acquire
  split
  · exact .inl rfl
  · exact .inr (slots_begin _ caller slot later)

/-- The other calls stay where they are. -/
theorem Stepped.lookup_of_ne {event : AdmissionEvent κ T} {next : Admission κ T}
    (h : Stepped s event next) {other : κ} (hne : other ≠ event.caller) :
    next.slots.lookup other = s.slots.lookup other := by
  have herase : ∀ slots : List (κ × Slot T),
      (Dict.erase event.caller slots).lookup other = slots.lookup other :=
    Dict.lookup_erase_of_ne hne
  have hset : ∀ (slot : Slot T) (slots : List (κ × Slot T)),
      (Dict.set event.caller slot slots).lookup other = slots.lookup other :=
    Dict.lookup_set_of_ne hne
  cases h with
  | rejected | bodyCancelled => rfl
  | expired | cancelled => exact hset _ _
  | abandoned | finished => exact herase _
  | @admitted caller deadline timeout now later limiter due slot =>
    have hentered : (Dict.set caller slot s.slots).lookup other = s.slots.lookup other := hset _ _
    rcases slots_acquire { s with limiter, slots := Dict.set caller slot s.slots } caller slot later
      with he | he | he
    · rw [he, hentered]
    · rw [he]
      exact (herase _).trans hentered
    · rw [he]
      exact (hset _ _).trans hentered
  | @resumed caller slot now =>
    rcases slots_begin (s.withSemaphore (s.limiter.semaphore.resume caller)) caller slot now
      with he | he
    · rw [he]
      exact herase _
    · rw [he]
      exact hset _ _

/-- A waiting call that resumes runs or has left; it only runs when nobody cancelled it. -/
theorem Stepped.resumed_lookup {now : T} {next : Admission κ T}
    (h : Stepped s (.resume caller now) next) :
    next.slots.lookup caller = none ∨
      (∃ slot, s.slots.lookup caller = some slot ∧ slot.phase = .waiting false false) ∧
        ∃ slot, next.slots.lookup caller = some slot ∧ slot.phase = .running := by
  cases h with
  | abandoned => exact .inl (Dict.lookup_erase_self _ _)
  | @resumed _ slot _ found waits =>
    rcases slots_begin (s.withSemaphore (s.limiter.semaphore.resume caller)) caller slot now
      with he | he
    · rw [he]
      exact .inl (Dict.lookup_erase_self _ _)
    · rw [he]
      exact .inr ⟨⟨slot, found, waits⟩, _, Dict.lookup_set_self _ _ _, rfl⟩

/-- Reading the clock changes no counter. -/
theorem Consistent.readClock (h : Consistent capacity held s) (now : T) :
    Consistent capacity held { s with clock := now } :=
  { h with }

/-- Every step of the event loop keeps the counters right. -/
theorem Consistent.step (h : Consistent capacity 0 s) {event : AdmissionEvent κ T}
    {next : Admission κ T} (taken : s.step event = some next) : Consistent capacity 0 next := by
  cases stepped taken with
  | rejected => exact { h with }
  | admitted fresh accepted slot_eq =>
    obtain ⟨hroom, rfl⟩ := CapacityLimiter.enter_eq_ok accepted
    have hwaits : SlotPhase.waiting false false ≠ .running := by simp
    subst slot_eq
    exact (h.entered fresh hroom hwaits).acquire (Dict.lookup_set_self _ _ _) hwaits
      (h.notMem_waiters fresh) _
  | expired found waits => exact h.interrupt found (by simp [waits]) true _
  | cancelled found waits => exact h.interrupt found (by simp [waits]) _ true
  | bodyCancelled => exact h
  | resumed found waits granted => exact h.resume found (by simp [waits]) granted _
  | abandoned found waits queued ends =>
    exact (h.abandon found (by simp [waits]) queued _).readClock _
  | finished found runs => exact h.leave_running found runs (h.running_notMem found runs) .done

/-- Every reachable state. -/
theorem consistent_of_reachable {clock : T}
    (h : (machine capacity clock : Machine (Admission κ T) _).Reachable s) :
    Consistent capacity 0 s :=
  h.invariant (consistent_new capacity clock) fun before taken => before.step taken

/-! ## Rejections for capacity -/

/-- A caller that begins may end late. -/
theorem ended_begin (s : Admission κ T) (caller : κ) (slot : Slot T) (now : T) :
    (s.begin caller slot now).ended = s.ended ∨
      (s.begin caller slot now).ended = (caller, .failed slot.timeout.error) :: s.ended := by
  unfold Admission.begin
  by_cases hd : slot.deadline ≤ now
  · rw [if_pos hd]
    exact .inr rfl
  · rw [if_neg hd]
    exact .inl rfl

/-- A caller that asks for a permit may end late. -/
theorem ended_acquire (s : Admission κ T) (caller : κ) (slot : Slot T) (later : T) :
    (s.acquire caller slot later).ended = s.ended ∨
      (s.acquire caller slot later).ended = (caller, .failed slot.timeout.error) :: s.ended := by
  unfold Admission.acquire
  split
  · exact .inl rfl
  · exact ended_begin _ caller slot later

/-- A list that stays or grows by another entry does not grow by this one. -/
theorem grows_ne {α : Type*} {before after : List α} {entry other : α} (hne : other ≠ entry)
    (h : after = before ∨ after = other :: before) : after ≠ entry :: before := by
  rcases h with rfl | rfl
  · exact (List.cons_ne_self _ _).symm
  · intro he
    exact hne (List.cons.inj he).1

omit [DecidableEq κ] in
/-- Being late is no overload. -/
theorem timedOut_ne (caller other : κ) (timeout : ErrorCode) :
    ((other, SlotEnd.failed timeout.error) : κ × SlotEnd)
      ≠ (caller, .failed CapacityLimiter.overloaded) := by
  intro h
  exact CapacityLimiter.overloaded_ne timeout (SlotEnd.failed.inj (Prod.mk.inj h).2).symm

/-- A call is rejected for capacity in the step of its arrival, exactly when it arrives before its
deadline and no room is left. -/
theorem Consistent.rejected_iff (h : Consistent capacity 0 s) {event : AdmissionEvent κ T}
    {next : Admission κ T} (taken : s.step event = some next) (caller : κ) :
    next.ended = (caller, .failed CapacityLimiter.overloaded) :: s.ended ↔
      ∃ deadline timeout now later, event = .arrive caller (some deadline) timeout now later ∧
        now < deadline ∧ s.running + s.waiting = capacity.maximum := by
  have hadmitted := h.admitted
  have hmaximum := h.maximum
  have hbounded := h.bounded
  rw [running_add_waiting]
  cases stepped taken with
  | @rejected other deadline timeout now later error fresh refused =>
    -- too late, or no room: only the second is an overload
    rcases CapacityLimiter.enter_eq_error refused with ⟨rfl, hlate⟩ | ⟨rfl, hfull, due, hdue, hopen⟩
    · constructor
      · intro he
        exact absurd he (grows_ne (timedOut_ne caller other timeout) (.inr rfl))
      · rintro ⟨due, _, _, _, he, hopen, -⟩
        cases he
        exact absurd (hlate due rfl) (not_le.mpr hopen)
    · constructor
      · intro he
        obtain ⟨rfl⟩ := (Prod.mk.inj (List.cons.inj he).1).1
        cases hdue
        exact ⟨due, timeout, now, later, rfl, hopen, by omega⟩
      · rintro ⟨_, _, _, _, he, -⟩
        cases he
        rfl
  | @admitted other deadline timeout now later limiter due slot fresh accepted slot_eq =>
    obtain ⟨hroom, -⟩ := CapacityLimiter.enter_eq_ok accepted
    constructor
    · intro he
      exact absurd he (grows_ne (timedOut_ne caller other _) (ended_acquire _ other slot later))
    · rintro ⟨_, _, _, _, -, -, hfull⟩
      omega
  -- the other steps end nobody, or end a caller in another way
  | expired found waits | cancelled found waits | bodyCancelled =>
    constructor
    · intro he
      exact absurd he (List.cons_ne_self _ _).symm
    · rintro ⟨_, _, _, _, he, -⟩
      cases he
  | @resumed other slot now found waits granted =>
    constructor
    · intro he
      exact absurd he (grows_ne (timedOut_ne caller other _) (ended_begin _ other slot now))
    · rintro ⟨_, _, _, _, he, -⟩
      cases he
  | @abandoned other slot _ _ wake now result found waits queued ends =>
    constructor
    · intro he
      have hne : (other, result) ≠ (caller, .failed CapacityLimiter.overloaded) := by
        rcases ends with rfl | rfl
        · simp
        · exact timedOut_ne caller other _
      exact absurd he (grows_ne hne (.inr rfl))
    · rintro ⟨_, _, _, _, he, -⟩
      cases he
  | @finished other slot found runs =>
    constructor
    · intro he
      exact absurd he (grows_ne (by simp) (.inr rfl))
    · rintro ⟨_, _, _, _, he, -⟩
      cases he

/-- One event ends at most one caller. -/
theorem Stepped.ended {event : AdmissionEvent κ T} {next : Admission κ T}
    (h : Stepped s event next) :
    next.ended = s.ended ∨ ∃ entry, next.ended = entry :: s.ended := by
  cases h with
  | rejected | abandoned | finished => exact .inr ⟨_, rfl⟩
  | admitted => exact (ended_acquire _ _ _ _).imp_right fun he => ⟨_, he⟩
  | expired | cancelled | bodyCancelled => exact .inl rfl
  | resumed => exact (ended_begin _ _ _ _).imp_right fun he => ⟨_, he⟩

/-- Nobody is rejected for capacity when there is room for those who arrive. -/
theorem Consistent.unrejected (h : Consistent capacity 0 s) {event : AdmissionEvent κ T}
    {next : Admission κ T} (taken : s.step event = some next)
    (old : ∀ entry ∈ s.ended, entry.2 ≠ .failed CapacityLimiter.overloaded)
    (room : ∀ {caller deadline timeout now later},
      event = .arrive caller deadline timeout now later → s.slots.length < capacity.maximum) :
    ∀ entry ∈ next.ended, entry.2 ≠ .failed CapacityLimiter.overloaded := by
  rcases (stepped taken).ended with he | ⟨⟨caller, result⟩, he⟩
  · rw [he]
    exact old
  · rw [he]
    intro entry hentry
    rcases List.mem_cons.mp hentry with rfl | hentry
    · intro hresult
      simp only at hresult
      subst hresult
      obtain ⟨_, _, _, _, harrive, -, hfull⟩ := (h.rejected_iff taken caller).mp he
      have := room harrive
      rw [running_add_waiting] at hfull
      omega
    · exact old entry hentry

/-- Without callers every permit is back. -/
theorem Consistent.idle (h : Consistent capacity 0 s) (hs : s.slots = []) :
    s.limiter = .new capacity := by
  have hwaiters : s.limiter.semaphore.waiters = [] := by
    rw [List.eq_nil_iff_forall_not_mem]
    intro waiter hw
    obtain ⟨slot, hslot, -⟩ := h.waiters waiter.1 (List.mem_map.mpr ⟨waiter, hw, rfl⟩)
    rw [hs] at hslot
    cases hslot
  have hrunning : s.running = 0 := by simp [running, hs]
  have hpermits := h.permits
  have hvalue : s.limiter.semaphore.value = capacity.concurrency := by
    simpa [Semaphore.permits, Semaphore.promised, hwaiters, hrunning] using hpermits
  have hadmitted : s.limiter.admitted = 0 := by rw [h.admitted, hs]; rfl
  have hactive : s.limiter.active = 0 := by rw [h.active, hrunning]; rfl
  obtain ⟨⟨semaphore, maximum, admitted, active⟩, _⟩ := s
  obtain ⟨value, waiters⟩ := semaphore
  simp only at hvalue hwaiters hadmitted hactive
  rw [CapacityLimiter.new, ← h.maximum, hvalue, hwaiters, hadmitted, hactive]

/-! ## Rejections for the deadline -/

/-- A call that arrives late leaves at once with its timeout code and changes nothing else. -/
theorem step_arrive_late {deadline : Option T} {timeout : ErrorCode} {now later : T}
    {next : Admission κ T} (taken : s.step (.arrive caller deadline timeout now later) = some next)
    (late : ∀ due ∈ deadline, due ≤ now) :
    next = { s with clock := later, ended := (caller, .failed timeout.error) :: s.ended } := by
  simp only [step, CapacityLimiter.enter_late s.limiter late timeout] at taken
  split at taken
  · cases taken
  · exact (Option.some.inj taken).symm

/-! ## Safety under every interleaving -/

/-- In every run of a limiter the bounds hold, bodies start before their deadline, calls that arrive
in time are rejected exactly when there is no room, calls that arrive late are rejected for their
deadline whatever the load, and an idle limiter is as new. -/
theorem admission_safe {capacity : Capacity} {clock : T} {s : Admission κ T}
    (h : (machine capacity clock : Machine (Admission κ T) _).Reachable s) :
    (s.running ≤ capacity.concurrency ∧
        s.running + s.waiting ≤ capacity.concurrency + capacity.queueLimit) ∧
      (s.limiter.active = s.running ∧ s.limiter.waiting = s.waiting) ∧
      (∀ start ∈ s.starts, start.time < start.deadline) ∧
      (∀ {event next}, s.step event = some next → ∀ caller,
        (next.ended = (caller, .failed CapacityLimiter.overloaded) :: s.ended ↔
          ∃ deadline timeout now later, event = .arrive caller (some deadline) timeout now later ∧
            now < deadline ∧
            s.running + s.waiting = capacity.concurrency + capacity.queueLimit)) ∧
      (∀ {caller deadline timeout now later next},
        s.step (.arrive caller deadline timeout now later) = some next →
          (∀ due ∈ deadline, due ≤ now) →
          next = { s with clock := later, ended := (caller, .failed timeout.error) :: s.ended }) ∧
      (s.running + s.waiting = 0 → s.limiter = .new capacity) := by
  have hc := consistent_of_reachable h
  have hadmitted := hc.admitted
  have hactive := hc.active
  have hpermits := hc.permits
  have hsum := running_add_waiting s
  refine ⟨⟨by omega, hsum.le.trans hc.bounded⟩, ⟨hactive, ?_⟩, hc.punctual,
    fun taken caller => hc.rejected_iff taken caller, step_arrive_late, fun h0 => hc.idle ?_⟩
  · rw [CapacityLimiter.waiting]
    omega
  · exact List.length_eq_zero_iff.mp (hsum.symm.trans h0)

/-- One permit and no queue. -/
def single : Capacity := ⟨1, 0, le_rfl⟩

/-- The first call of a limiter with one permit runs. -/
def occupied : Admission ℕ ℕ where
  limiter := ⟨⟨0, []⟩, 1, 1, 1⟩
  clock := 0
  slots := [(0, ⟨5, .requestTimeout, .running⟩)]
  starts := [⟨5, 0⟩]
  ended := []

/-- The state is reached. -/
theorem occupied_reachable : (machine single 0 : Machine (Admission ℕ ℕ) _).Reachable occupied :=
  Machine.Reachable.start.run [.arrive 0 (some 5) .requestTimeout 0 0] rfl

/-- The state is within its bounds. -/
theorem occupied_safe :
    (occupied.running ≤ 1 ∧ occupied.running + occupied.waiting ≤ 1 + 0) ∧
      occupied.limiter.active = occupied.running :=
  have h := admission_safe occupied_reachable
  ⟨h.1, h.2.1.1⟩

/-- A call whose deadline has passed is rejected for it, also when there is no room. -/
theorem late_call_not_rejected_for_capacity :
    (machine single 0).Reachable occupied ∧ occupied.running + occupied.waiting = 1 + 0 ∧
      ∃ next, occupied.step (.arrive 1 (some 0) .requestTimeout 0 0) = some next ∧
        next.ended = [(1, .failed ErrorCode.requestTimeout.error)] ∧
        next.ended ≠ (1, .failed CapacityLimiter.overloaded) :: occupied.ended :=
  ⟨occupied_reachable, rfl, _, rfl, rfl, by decide⟩

end Admission

end Foliqant.Core
