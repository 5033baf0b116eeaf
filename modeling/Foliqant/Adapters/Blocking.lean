import Foliqant.Core.Admission
import Mathlib.Data.List.Perm.Subperm

/-!
# Blocking work

`BlockingExecutor.run` reserves a job and creates a task for it; the task asks the limiter for a slot
and submits the operation to the thread pool. The caller, the task and the operation end
independently of each other: the caller waits behind a shield, so a timeout or a cancellation ends
the call and leaves the task running, and a submitted operation cannot be stopped at all.

A step of the model is one run of the caller's task, of the job's task or of a callback between two
suspension points, or the end of an operation in its thread. The limiter is the one of
`Foliqant.Core.Admission`, with the jobs as its callers.
-/

namespace Foliqant.Adapters

open Foliqant.Core

/-- Where the task of a job is. -/
inductive TaskPhase where
  /-- Created; its first step has not run. -/
  | created
  /-- Waiting for a slot of the limiter. -/
  | waiting
  /-- Inside the slot, waiting for the submitted operation. -/
  | awaiting
  /-- Done; the callback that drops the job has not run. -/
  | done
  deriving DecidableEq, Repr

/-- A tracked job; `cancelled` is a cancellation that its task has not received yet. -/
structure Job (T : Type*) where
  deadline : T
  started : Bool
  phase : TaskPhase
  cancelled : Bool

/-- A caller waiting behind the shield, and whether its timer or its host cancelled it. -/
structure RunCall where
  expired : Bool
  cancelled : Bool

/-- How a call ended. -/
inductive RunEnd where
  | rejected (error : ServiceError)
  | timedOut
  | cancelled
  /-- The call has the result or the error of its task. -/
  | finished
  deriving DecidableEq

/-- The state of an executor of blocking work. -/
structure BlockingExecutor (T : Type*) where
  admission : Admission ℕ T
  maximum : ℕ
  closed : Bool
  jobs : List (ℕ × Job T)
  calls : List (ℕ × RunCall)
  /-- Submitted operations that have not finished. -/
  pool : List ℕ
  submitted : List ℕ
  ended : List (ℕ × RunEnd)
  /-- The name of the next call. -/
  next : ℕ

/-- Times are readings of the loop's clock in the order in which the step makes them. -/
inductive BlockingEvent (T : Type*) where
  | run (deadline : Option T) (now : T)
  /-- The timer of a call. -/
  | expire (job : ℕ)
  /-- The host cancels the task of a call. -/
  | cancel (job : ℕ)
  /-- The task of a call runs again. -/
  | wake (job : ℕ)
  /-- The first step of a job's task; the pool may refuse an operation with an exception. -/
  | start (job : ℕ) (now later last : T) (accepts : Bool)
  /-- The timer of a job that waits for its slot. -/
  | expireSlot (job : ℕ)
  /-- A job that waited for its slot runs again. -/
  | resume (job : ℕ) (now last : T) (accepts : Bool)
  /-- An operation finishes in its thread. -/
  | work (job : ℕ)
  /-- The task of a submitted operation runs again. -/
  | complete (job : ℕ)
  /-- The callback of a task that is done. -/
  | finished (job : ℕ)
  /-- Shut down; operations no thread has begun may be dropped. -/
  | aclose (dropped : List ℕ)

namespace BlockingExecutor

variable {T : Type*} [LinearOrder T]

/-- An executor without work. -/
def new (capacity : Capacity) (clock : T) : BlockingExecutor T where
  admission := .new capacity clock
  maximum := capacity.maximum
  closed := false
  jobs := []
  calls := []
  pool := []
  submitted := []
  ended := []
  next := 0

/-- Change a task. -/
def setJob (s : BlockingExecutor T) (name : ℕ) (job : Job T) : BlockingExecutor T :=
  { s with jobs := Dict.set name job s.jobs }

/-- `task.cancel()`: a waiting future is cancelled, otherwise the task receives it when it runs. -/
def cancelTask (s : BlockingExecutor T) (name : ℕ) (job : Job T) : BlockingExecutor T :=
  match job.phase with
  | .created | .awaiting => s.setJob name { job with cancelled := true }
  | .waiting =>
      match s.admission.step (.cancel name) with
      | some admission => { s with admission }
      | none => s
  | .done => s

/-- Cancel a task that has not been submitted. -/
def cancelUnstarted (s : BlockingExecutor T) (name : ℕ) : BlockingExecutor T :=
  match s.jobs.lookup name with
  | some job => if job.started then s else s.cancelTask name job
  | none => s

/-- The task leaves its slot and is done. -/
def leaveSlot (s : BlockingExecutor T) (name : ℕ) (job : Job T) : BlockingExecutor T :=
  { s with admission := s.admission.leave name true .done }.setJob name { job with phase := .done }

/-- The body of the slot up to the submission of the operation. -/
def submit (s : BlockingExecutor T) (name : ℕ) (job : Job T) (now : T) (accepts : Bool) :
    BlockingExecutor T :=
  if s.closed ∨ job.deadline ≤ now then s.leaveSlot name job
  else if accepts then
    { s with pool := name :: s.pool, submitted := name :: s.submitted }.setJob name
      { job with started := true, phase := .awaiting }
  else s.leaveSlot name { job with started := true }

/-- The limiter has run: the task has left the slot, waits for it or is in its body. -/
def enter (s : BlockingExecutor T) (name : ℕ) (job : Job T) (admission : Admission ℕ T) (now : T)
    (accepts : Bool) : BlockingExecutor T :=
  match admission.slots.lookup name with
  | none => { s with admission }.setJob name { job with phase := .done }
  | some slot =>
      match slot.phase with
      | .waiting _ _ => { s with admission }.setJob name { job with phase := .waiting }
      | .running => { s with admission }.submit name job now accepts

/-- A call ends. -/
def endCall (s : BlockingExecutor T) (name : ℕ) (result : RunEnd) : BlockingExecutor T :=
  { s with calls := Dict.erase name s.calls, ended := (name, result) :: s.ended }

/-- `run` up to the shield. -/
def reserve (s : BlockingExecutor T) (deadline : Option T) (now : T) :
    Except ServiceError (BlockingExecutor T) :=
  if s.closed then .error ErrorCode.dependencyFailure.error
  else
    match deadline with
    | none => .error ErrorCode.requestTimeout.error
    | some deadline =>
        if deadline ≤ now then .error ErrorCode.requestTimeout.error
        else if s.maximum ≤ s.jobs.length then .error CapacityLimiter.overloaded
        else
          .ok
            { s with
              jobs := Dict.set s.next ⟨deadline, false, .created, false⟩ s.jobs
              calls := Dict.set s.next ⟨false, false⟩ s.calls
              next := s.next + 1 }

/-- The task of a job is done, and perhaps its callback has run. -/
def taskDone (s : BlockingExecutor T) (name : ℕ) : Bool :=
  match s.jobs.lookup name with
  | some job => job.phase = .done
  | none => true

/-- One event of the event loop, the limiter or a worker. -/
def step (s : BlockingExecutor T) : BlockingEvent T → Option (BlockingExecutor T)
  | .run deadline now =>
      match s.reserve deadline now with
      | .error error =>
          some { s with ended := (s.next, .rejected error) :: s.ended, next := s.next + 1 }
      | .ok next => some next
  | .expire name =>
      match s.calls.lookup name with
      | some call => some { s with calls := Dict.set name { call with expired := true } s.calls }
      | none => none
  | .cancel name =>
      match s.calls.lookup name with
      | some call => some { s with calls := Dict.set name { call with cancelled := true } s.calls }
      | none => none
  | .wake name =>
      match s.calls.lookup name with
      | some call =>
          if call.cancelled then some ((s.cancelUnstarted name).endCall name .cancelled)
          else if call.expired then some ((s.cancelUnstarted name).endCall name .timedOut)
          else if s.taskDone name then some (s.endCall name .finished)
          else none
      | none => none
  | .start name now later last accepts =>
      match s.jobs.lookup name with
      | some job =>
          if job.phase ≠ .created then none
          else if job.cancelled then some (s.setJob name { job with phase := .done })
          else
            match s.admission.step (.arrive name (some job.deadline) .requestTimeout now later) with
            | some admission => some (s.enter name job admission last accepts)
            | none => none
      | none => none
  | .expireSlot name =>
      match s.admission.step (.expire name) with
      | some admission => some { s with admission }
      | none => none
  | .resume name now last accepts =>
      match s.jobs.lookup name, s.admission.step (.resume name now) with
      | some job, some admission => some (s.enter name job admission last accepts)
      | _, _ => none
  | .work name => if name ∈ s.pool then some { s with pool := s.pool.erase name } else none
  | .complete name =>
      match s.jobs.lookup name with
      | some job =>
          if job.phase = .awaiting ∧ (name ∉ s.pool ∨ job.cancelled) then some (s.leaveSlot name job)
          else none
      | none => none
  | .finished name =>
      match s.jobs.lookup name with
      | some job =>
          if job.phase = .done then some { s with jobs := Dict.erase name s.jobs } else none
      | none => none
  | .aclose dropped =>
      let closing := { s with closed := true }
      let s := (Dict.keys s.jobs).foldl cancelUnstarted closing
      some { s with pool := s.pool.filter (· ∉ dropped) }

/-- All runs of an executor. -/
def machine (capacity : Capacity) (clock : T) :
    Machine (BlockingExecutor T) (BlockingEvent T) where
  start := new capacity clock
  step := step

/-! ## The invariant -/

/-- The call ended by a timeout or a cancellation. -/
def Interrupted (s : BlockingExecutor T) (name : ℕ) : Prop :=
  (name, RunEnd.timedOut) ∈ s.ended ∨ (name, RunEnd.cancelled) ∈ s.ended

/-- A task is inside the limiter exactly from its first wait to the end of its operation. -/
def Located (job : Option (Job T)) (slot : Option (Slot T)) : Prop :=
  match job.map Job.phase with
  | none | some .created | some .done => slot = none
  | some .waiting => ∃ waiting ∈ slot, waiting.phase ≠ .running
  | some .awaiting => ∃ running ∈ slot, running.phase = .running

/-- An operation is submitted when its task awaits it, and such a task is not cancelled. -/
structure Booked (submitted : List ℕ) (name : ℕ) (job : Job T) : Prop where
  early : job.phase = .created ∨ job.phase = .waiting → job.started = false ∧ name ∉ submitted
  waiting : job.phase = .waiting → job.cancelled = false
  awaiting : job.phase = .awaiting → job.started = true ∧ job.cancelled = false ∧ name ∈ submitted

omit [LinearOrder T] in
/-- A new task holds nothing. -/
theorem booked_created {submitted : List ℕ} {name : ℕ} {job : Job T} (hp : job.phase = .created)
    (early : job.started = false ∧ name ∉ submitted) : Booked submitted name job where
  early _ := early
  waiting hw := by simp [hp] at hw
  awaiting ha := by simp [hp] at ha

omit [LinearOrder T] in
/-- A waiting task has not been submitted. -/
theorem booked_waiting {submitted : List ℕ} {name : ℕ} {job : Job T} (hp : job.phase = .waiting)
    (early : job.started = false ∧ name ∉ submitted) (uncancelled : job.cancelled = false) :
    Booked submitted name job where
  early _ := early
  waiting _ := uncancelled
  awaiting ha := by simp [hp] at ha

omit [LinearOrder T] in
/-- A submitted task runs in the pool. -/
theorem booked_awaiting {submitted : List ℕ} {name : ℕ} {job : Job T} (hp : job.phase = .awaiting)
    (h : job.started = true ∧ job.cancelled = false ∧ name ∈ submitted) :
    Booked submitted name job where
  early he := by simp [hp] at he
  waiting hw := by simp [hp] at hw
  awaiting _ := h

omit [LinearOrder T] in
/-- A finished task holds nothing. -/
theorem booked_done {submitted : List ℕ} {name : ℕ} {job : Job T} (hp : job.phase = .done) :
    Booked submitted name job where
  early he := by simp [hp] at he
  waiting hw := by simp [hp] at hw
  awaiting ha := by simp [hp] at ha

/-- The task will not submit its operation any more. -/
def Halts (admission : Admission ℕ T) (name : ℕ) (job : Job T) : Prop :=
  job.phase = .done ∨ job.phase = .created ∧ job.cancelled = true ∨
    job.phase = .waiting ∧ ∃ slot expired, admission.slots.lookup name = some slot ∧
      slot.phase = .waiting expired true

/-- What holds in every state of an executor. -/
structure Sound (capacity : Capacity) (s : BlockingExecutor T) : Prop where
  consistent : s.admission.Consistent capacity 0
  maximum : s.maximum = capacity.maximum
  nodup : (Dict.keys s.jobs).Nodup
  bounded : s.jobs.length ≤ capacity.maximum
  located : ∀ name, Located (s.jobs.lookup name) (s.admission.slots.lookup name)
  booked : ∀ name job, s.jobs.lookup name = some job → Booked s.submitted name job
  poolNodup : s.pool.Nodup
  pool : ∀ name ∈ s.pool, ∃ job, s.jobs.lookup name = some job ∧ job.phase = .awaiting
  named : ∀ name, name ∈ Dict.keys s.jobs ∨ name ∈ Dict.keys s.calls ∨ name ∈ s.submitted ∨
    name ∈ s.ended.map Prod.fst → name < s.next
  unrejected : ∀ entry ∈ s.admission.ended, entry.2 ≠ .failed CapacityLimiter.overloaded
  halted : ∀ name, s.Interrupted name → name ∉ s.submitted → ∀ job,
    s.jobs.lookup name = some job → Halts s.admission name job

/-- The start. -/
theorem sound_new (capacity : Capacity) (clock : T) :
    Sound capacity (new capacity clock : BlockingExecutor T) where
  consistent := Admission.consistent_new capacity clock
  maximum := rfl
  nodup := List.nodup_nil
  bounded := Nat.zero_le _
  located _ := rfl
  booked _ _ h := by cases h
  poolNodup := List.nodup_nil
  pool _ h := by cases h
  named _ h := by simp [new] at h
  unrejected _ h := by cases h
  halted _ _ _ _ h := by cases h

variable {capacity : Capacity} {s : BlockingExecutor T} {name : ℕ} {job : Job T}

/-- A step at one job: the limiter moves this job only, and its operation may be submitted. -/
theorem Sound.update (h : Sound capacity s) (found : s.jobs.lookup name = some job) {new : Job T}
    {admission : Admission ℕ T} {pool submitted : List ℕ}
    (consistent : admission.Consistent capacity 0)
    (frame : ∀ other, other ≠ name →
      admission.slots.lookup other = s.admission.slots.lookup other)
    (unrejected : ∀ entry ∈ admission.ended, entry.2 ≠ .failed CapacityLimiter.overloaded)
    (located : Located (some new) (admission.slots.lookup name))
    (booked : Booked submitted name new)
    (poolNodup : pool.Nodup) (pool_sub : ∀ other ∈ pool, other ≠ name → other ∈ s.pool)
    (pooled : name ∈ pool → new.phase = .awaiting)
    (kept : ∀ other, other ≠ name → (other ∈ submitted ↔ other ∈ s.submitted))
    (halted : s.Interrupted name → name ∉ submitted → Halts admission name new) :
    Sound capacity
      { s with admission, jobs := Dict.set name new s.jobs, pool, submitted } := by
  have hmem := Dict.mem_keys_of_lookup found
  have hkeys := Dict.keys_set_of_mem hmem new
  have hself := Dict.lookup_set_self name new s.jobs
  refine ⟨consistent, h.maximum, hkeys ▸ h.nodup, (Dict.length_set new found).le.trans h.bounded,
    ?_, ?_, poolNodup, ?_, ?_, unrejected, ?_⟩
  · intro other
    by_cases he : other = name
    · rw [he, hself]
      exact located
    · rw [Dict.lookup_set_of_ne he, frame other he]
      exact h.located other
  · intro other current hc
    by_cases he : other = name
    · subst he
      obtain rfl := Option.some.inj (hself.symm.trans hc)
      exact booked
    · rw [Dict.lookup_set_of_ne he] at hc
      have hb := h.booked other current hc
      exact ⟨fun hp => ⟨(hb.early hp).1, fun hs => (hb.early hp).2 ((kept other he).mp hs)⟩,
        hb.waiting, fun hp => ⟨(hb.awaiting hp).1, (hb.awaiting hp).2.1,
          (kept other he).mpr (hb.awaiting hp).2.2⟩⟩
  · intro other ho
    by_cases he : other = name
    · subst he
      exact ⟨new, hself, pooled ho⟩
    · rw [Dict.lookup_set_of_ne he]
      exact h.pool other (pool_sub other ho he)
  · intro other ho
    by_cases he : other = name
    · rw [he]
      exact h.named name (.inl hmem)
    · rw [hkeys, kept other he] at ho
      exact h.named other ho
  -- an interrupted job of another name is halted as before, for its slot is unchanged
  · intro other hi hs current hc
    by_cases he : other = name
    · subst he
      obtain rfl := Option.some.inj (hself.symm.trans hc)
      exact halted hi hs
    · rw [Dict.lookup_set_of_ne he] at hc
      have hh := h.halted other hi (fun hm => hs ((kept other he).mpr hm)) current hc
      unfold Halts at hh ⊢
      rwa [frame other he]

/-! ## One task -/

/-- The limiter steps for a job whose task keeps its place. -/
theorem Sound.stepSlot (h : Sound capacity s) (found : s.jobs.lookup name = some job)
    {event : AdmissionEvent ℕ T} {admission : Admission ℕ T}
    (taken : s.admission.step event = some admission) (hcaller : event.caller = name)
    (old : ∀ caller deadline timeout now later, event ≠ .arrive caller deadline timeout now later)
    (located : Located (some job) (admission.slots.lookup name))
    (halted : s.Interrupted name → name ∉ s.submitted → Halts admission name job) :
    Sound capacity { s with admission } := by
  have pooled : name ∈ s.pool → job.phase = .awaiting := by
    intro hp
    obtain ⟨current, hc, hphase⟩ := h.pool name hp
    rw [found] at hc
    exact Option.some.inj hc ▸ hphase
  have hnew := h.update found (h.consistent.step taken)
    (fun other he => (Admission.stepped taken).lookup_of_ne (hcaller ▸ he))
    (h.consistent.unrejected taken h.unrejected fun ha => absurd ha (old _ _ _ _ _))
    located (h.booked name job found) h.poolNodup (fun _ ho _ => ho) pooled (fun _ _ => Iff.rfl)
    halted
  rwa [Dict.set_self found] at hnew

/-- The task takes a step on its own. -/
theorem Sound.setJob (h : Sound capacity s) (found : s.jobs.lookup name = some job) {new : Job T}
    (located : Located (some new) (s.admission.slots.lookup name))
    (booked : Booked s.submitted name new) (unpooled : name ∉ s.pool)
    (halted : s.Interrupted name → name ∉ s.submitted → Halts s.admission name new) :
    Sound capacity (s.setJob name new) :=
  h.update found h.consistent (fun _ _ => rfl) h.unrejected located booked h.poolNodup
    (fun _ ho _ => ho) (fun hp => absurd hp unpooled) (fun _ _ => Iff.rfl) halted

/-- Only submitted tasks are in the pool. -/
theorem Sound.notMem_pool (h : Sound capacity s) (found : s.jobs.lookup name = some job)
    (hphase : job.phase ≠ .awaiting) : name ∉ s.pool := by
  intro hp
  obtain ⟨current, hc, hawaiting⟩ := h.pool name hp
  rw [found] at hc
  obtain rfl := Option.some.inj hc
  exact hphase hawaiting

/-- A waiting task has a slot of the limiter. -/
theorem Sound.slot_waiting (h : Sound capacity s) (found : s.jobs.lookup name = some job)
    (hphase : job.phase = .waiting) :
    ∃ slot expired cancelled, s.admission.slots.lookup name = some slot ∧
      slot.phase = .waiting expired cancelled := by
  have hlocated := h.located name
  rw [found] at hlocated
  simp only [Located, Option.map_some, hphase] at hlocated
  obtain ⟨slot, hs, hne⟩ := hlocated
  cases hw : slot.phase with
  | waiting expired cancelled => exact ⟨slot, expired, cancelled, hs, hw⟩
  | running => exact absurd hw hne

/-- A submitted task has a running slot of the limiter. -/
theorem Sound.slot_running (h : Sound capacity s) (found : s.jobs.lookup name = some job)
    (hphase : job.phase = .awaiting) :
    ∃ slot, s.admission.slots.lookup name = some slot ∧ slot.phase = .running := by
  have hlocated := h.located name
  rw [found] at hlocated
  simp only [Located, Option.map_some, hphase] at hlocated
  exact hlocated

/-- A new or finished task has no slot. -/
theorem Sound.slot_none (h : Sound capacity s) (found : s.jobs.lookup name = some job)
    (hphase : job.phase = .created ∨ job.phase = .done) :
    s.admission.slots.lookup name = none := by
  have hlocated := h.located name
  rw [found] at hlocated
  rcases hphase with hphase | hphase <;> simpa only [Located, Option.map_some, hphase] using hlocated

/-- After a cancellation a task that has not started will not submit its operation. -/
theorem Sound.cancelTask (h : Sound capacity s) (found : s.jobs.lookup name = some job)
    (unstarted : job.started = false) :
    Sound capacity (s.cancelTask name job) ∧
      ∀ current, (s.cancelTask name job).jobs.lookup name = some current →
        Halts (s.cancelTask name job).admission name current := by
  obtain ⟨deadline, started, phase, cancelled⟩ := job
  have hbooked := h.booked name _ found
  cases phase with
  | created =>
    have hhalts : Halts s.admission name ⟨deadline, started, .created, true⟩ := .inr (.inl ⟨rfl, rfl⟩)
    have hbooked' : Booked s.submitted name ⟨deadline, started, .created, true⟩ :=
      booked_created rfl (hbooked.early (.inl rfl))
    refine ⟨h.setJob found (h.slot_none found (.inl rfl)) hbooked' (h.notMem_pool found (by simp))
      fun _ _ => hhalts, ?_⟩
    intro current hc
    obtain rfl := Option.some.inj ((Dict.lookup_set_self _ _ _).symm.trans hc)
    exact hhalts
  | waiting =>
    obtain ⟨slot, expired, _, hs, hw⟩ := h.slot_waiting found rfl
    have taken : s.admission.step (.cancel name)
        = some (s.admission.interrupt name slot expired true) := by
      simp only [Admission.step, hs, hw]
    have hlookup : (s.admission.interrupt name slot expired true).slots.lookup name
        = some { slot with phase := .waiting expired true } := Dict.lookup_set_self _ _ _
    have hhalts : Halts (s.admission.interrupt name slot expired true) name
        ⟨deadline, started, .waiting, cancelled⟩ := .inr (.inr ⟨rfl, _, expired, hlookup, rfl⟩)
    simp only [BlockingExecutor.cancelTask, taken]
    refine ⟨h.stepSlot found taken rfl (by simp) ⟨_, hlookup, by simp⟩ fun _ _ => hhalts, ?_⟩
    intro current hc
    obtain rfl := Option.some.inj (found.symm.trans hc)
    exact hhalts
  | awaiting =>
    have hstarted := (hbooked.awaiting rfl).1
    rw [hstarted] at unstarted
    cases unstarted
  | done =>
    refine ⟨h, ?_⟩
    intro current hc
    obtain rfl := Option.some.inj (found.symm.trans hc)
    exact .inl rfl

/-- The parts that cancelling a task leaves alone. -/
structure SameCalls (s next : BlockingExecutor T) : Prop where
  closed : next.closed = s.closed
  calls : next.calls = s.calls
  pool : next.pool = s.pool
  submitted : next.submitted = s.submitted
  ended : next.ended = s.ended
  names : next.next = s.next

omit [LinearOrder T] in
/-- Nothing changed. -/
theorem SameCalls.refl (s : BlockingExecutor T) : SameCalls s s := ⟨rfl, rfl, rfl, rfl, rfl, rfl⟩

omit [LinearOrder T] in
/-- Nothing changed, twice. -/
theorem SameCalls.trans {a b c : BlockingExecutor T} (hab : SameCalls a b) (hbc : SameCalls b c) :
    SameCalls a c :=
  ⟨hbc.closed.trans hab.closed, hbc.calls.trans hab.calls, hbc.pool.trans hab.pool,
    hbc.submitted.trans hab.submitted, hbc.ended.trans hab.ended, hbc.names.trans hab.names⟩

/-- Cancelling a task ends no call. -/
theorem sameCalls_cancelUnstarted (s : BlockingExecutor T) (name : ℕ) :
    SameCalls s (s.cancelUnstarted name) := by
  unfold cancelUnstarted
  split
  case h_2 => exact .refl s
  case h_1 job found =>
    split
    case isTrue => exact .refl s
    case isFalse =>
      unfold BlockingExecutor.cancelTask
      split
      case h_3 => split <;> exact ⟨rfl, rfl, rfl, rfl, rfl, rfl⟩
      all_goals exact ⟨rfl, rfl, rfl, rfl, rfl, rfl⟩

/-- Cancelling a task that has not been submitted. -/
theorem Sound.cancelUnstarted (h : Sound capacity s) (name : ℕ) :
    Sound capacity (s.cancelUnstarted name) := by
  unfold BlockingExecutor.cancelUnstarted
  split
  case h_2 => exact h
  case h_1 job found =>
    split
    case isTrue => exact h
    case isFalse hs => exact (h.cancelTask found (Bool.eq_false_iff.mpr hs)).1

/-- A task that has not submitted its operation and is cancelled will not submit it. -/
theorem Sound.cancelUnstarted_halts (h : Sound capacity s) (hs : name ∉ s.submitted) (job : Job T)
    (found : (s.cancelUnstarted name).jobs.lookup name = some job) :
    Halts (s.cancelUnstarted name).admission name job := by
  revert found
  unfold BlockingExecutor.cancelUnstarted
  split
  case h_2 hnone =>
    intro found
    rw [hnone] at found
    cases found
  case h_1 current hcurrent =>
    split
    case isFalse hstarted =>
      exact (h.cancelTask hcurrent (Bool.eq_false_iff.mpr hstarted)).2 job
    case isTrue hstarted =>
      intro found
      obtain rfl := Option.some.inj (hcurrent.symm.trans found)
      have hbooked := h.booked name current hcurrent
      cases hphase : current.phase with
      | created | waiting =>
        rw [(hbooked.early (by simp [hphase])).1] at hstarted
        cases hstarted
      | awaiting => exact absurd (hbooked.awaiting hphase).2.2 hs
      | done => exact .inl hphase

/-- A task leaves its slot. -/
theorem Sound.leaveSlot (h : Sound capacity s) (found : s.jobs.lookup name = some job)
    {slot : Slot T} (inside : s.admission.slots.lookup name = some slot)
    (runs : slot.phase = .running) (unpooled : name ∉ s.pool) (new : Job T) :
    Sound capacity (s.leaveSlot name new) := by
  have taken : s.admission.step (.finish name) = some (s.admission.leave name true .done) := by
    simp only [Admission.step, inside, runs]
  have hlookup : (s.admission.leave name true .done).slots.lookup name = none :=
    Dict.lookup_erase_self _ _
  exact h.update found (h.consistent.step taken)
    (fun other he => (Admission.stepped taken).lookup_of_ne he)
    (h.consistent.unrejected taken h.unrejected (by simp)) hlookup (booked_done rfl) h.poolNodup
    (fun _ ho _ => ho) (fun hp => absurd hp unpooled) (fun _ _ => Iff.rfl) fun _ _ => .inl rfl

/-- The limiter has run for a job that has not submitted its operation: the task left the slot, waits
for it, left it from its body or submitted the operation. -/
theorem Sound.enter (h : Sound capacity s) (found : s.jobs.lookup name = some job)
    (early : job.phase = .created ∨ job.phase = .waiting) (hcancelled : job.cancelled = false)
    {event : AdmissionEvent ℕ T}
    {admission : Admission ℕ T} (taken : s.admission.step event = some admission)
    (hcaller : event.caller = name)
    (room : ∀ {caller deadline timeout now later},
      event = .arrive caller deadline timeout now later →
        s.admission.slots.length < capacity.maximum)
    (alive : admission.slots.lookup name ≠ none → ¬ Halts s.admission name job) (now : T)
    (accepts : Bool) : Sound capacity (s.enter name job admission now accepts) := by
  have hearly := (h.booked name job found).early early
  have hconsistent := h.consistent.step taken
  have hframe : ∀ other, other ≠ name →
      admission.slots.lookup other = s.admission.slots.lookup other := fun other he =>
    (Admission.stepped taken).lookup_of_ne (hcaller ▸ he)
  have hunrejected := h.consistent.unrejected taken h.unrejected room
  have hunpooled : name ∉ s.pool := by
    refine h.notMem_pool found ?_
    rcases early with hp | hp <;> rw [hp] <;> simp
  have hidle : admission.slots.lookup name ≠ none → name ∉ s.submitted →
      ¬ s.Interrupted name := fun hin hs hi => alive hin (h.halted name hi hs job found)
  unfold BlockingExecutor.enter
  split
  case h_1 hnone =>
    exact h.update found hconsistent hframe hunrejected hnone (booked_done rfl) h.poolNodup
      (fun _ ho _ => ho) (fun hp => absurd hp hunpooled) (fun _ _ => Iff.rfl) fun _ _ => .inl rfl
  case h_2 slot hslot =>
    have hin : admission.slots.lookup name ≠ none := by
      rw [hslot]
      exact Option.some_ne_none slot
    split
    case h_1 hwaits =>
      exact h.update found hconsistent hframe hunrejected
        ⟨slot, hslot, fun hr => by rw [hwaits] at hr; cases hr⟩
        (booked_waiting rfl hearly hcancelled)
        h.poolNodup (fun _ ho _ => ho) (fun hp => absurd hp hunpooled) (fun _ _ => Iff.rfl)
        fun hi hs => absurd hi (hidle hin hs)
    case h_2 hruns =>
      -- Leaving the body again is one more step of the limiter.
      have left : admission.step (.finish name) = some (admission.leave name true .done) := by
        simp only [Admission.step, hslot, hruns]
      have hleft : ∀ started, Sound capacity
          (BlockingExecutor.leaveSlot { s with admission } name { job with started := started }) :=
        fun started => h.update found (hconsistent.step left)
          (fun other he => ((Admission.stepped left).lookup_of_ne he).trans (hframe other he))
          (hconsistent.unrejected left hunrejected (by simp)) (Dict.lookup_erase_self _ _)
          (booked_done rfl) h.poolNodup (fun _ ho _ => ho) (fun hp => absurd hp hunpooled)
          (fun _ _ => Iff.rfl) fun _ _ => .inl rfl
      unfold BlockingExecutor.submit
      split
      case isTrue => exact hleft job.started
      case isFalse =>
        split
        case isFalse => exact hleft true
        case isTrue =>
          refine h.update found hconsistent hframe hunrejected ⟨slot, hslot, hruns⟩
            (booked_awaiting rfl ⟨rfl, hcancelled, List.mem_cons_self⟩)
            (List.nodup_cons.mpr ⟨hunpooled, h.poolNodup⟩)
            (fun other ho he => (List.mem_cons.mp ho).resolve_left he) (fun _ => rfl)
            (fun other he => ?_) fun hi hs => absurd List.mem_cons_self hs
          rw [List.mem_cons]
          exact or_iff_right he

/-! ## Steps -/

/-- Every task in the limiter is a tracked job, and a job whose task was just created is not in it. -/
theorem Sound.room (h : Sound capacity s) (found : s.jobs.lookup name = some job)
    (hphase : job.phase = .created) : s.admission.slots.length < capacity.maximum := by
  have hnone := h.slot_none found (.inl hphase)
  have hsub : Dict.keys s.admission.slots ⊆ Dict.keys (Dict.erase name s.jobs) := by
    intro other ho
    obtain ⟨slot, hslot⟩ := Dict.lookup_isSome ho
    have hne : other ≠ name := by
      rintro rfl
      rw [hnone] at hslot
      cases hslot
    refine Dict.mem_keys_erase.mpr ⟨?_, hne⟩
    by_contra hc
    have hlocated := h.located other
    rw [Dict.lookup_eq_none.mpr hc, hslot] at hlocated
    cases hlocated
  have hle := (List.subperm_of_subset h.consistent.nodup hsub).length_le
  have herase := Dict.length_erase h.nodup found
  have hbounded := h.bounded
  simp only [Dict.keys, List.length_map] at hle
  omega

/-- A call inside the limiter is that of a job. -/
theorem Sound.job_of_slot (h : Sound capacity s) {slot : Slot T}
    (hslot : s.admission.slots.lookup name = some slot) (hwaits : slot.phase ≠ .running) :
    ∃ job, s.jobs.lookup name = some job ∧ job.phase = .waiting := by
  have hlocated := h.located name
  rw [hslot] at hlocated
  cases found : s.jobs.lookup name with
  | none =>
    rw [found] at hlocated
    cases hlocated
  | some job =>
    refine ⟨job, rfl, ?_⟩
    rw [found] at hlocated
    unfold Located at hlocated
    cases hphase : job.phase with
    | waiting => rfl
    | created | done =>
      rw [Option.map_some, hphase] at hlocated
      cases hlocated
    | awaiting =>
      rw [Option.map_some, hphase] at hlocated
      obtain ⟨running, hr, hruns⟩ := hlocated
      cases hr
      exact absurd hruns hwaits

omit [LinearOrder T] in
/-- A call that was interrupted before or just now. -/
theorem interrupted_cons {s next : BlockingExecutor T} {other : ℕ} {result : RunEnd}
    (he : next.ended = (name, result) :: s.ended) (hi : next.Interrupted other) :
    s.Interrupted other ∨ other = name ∧ (result = .timedOut ∨ result = .cancelled) := by
  unfold Interrupted at hi ⊢
  rw [he] at hi
  rcases hi with hi | hi <;> rcases List.mem_cons.mp hi with hhead | hi
  · cases hhead
    exact .inr ⟨rfl, .inl rfl⟩
  · exact .inl (.inl hi)
  · cases hhead
    exact .inr ⟨rfl, .inr rfl⟩
  · exact .inl (.inr hi)

/-- A call ends; the task of an interrupted call will not submit its operation. -/
theorem Sound.endCall (h : Sound capacity s) {call : RunCall}
    (found : s.calls.lookup name = some call) (result : RunEnd)
    (halts : result = .timedOut ∨ result = .cancelled → name ∉ s.submitted → ∀ job,
      s.jobs.lookup name = some job → Halts s.admission name job) :
    Sound capacity (s.endCall name result) := by
  refine { h with named := ?_, halted := ?_ }
  · intro other ho
    refine h.named other ?_
    rcases ho with ho | ho | ho | ho
    · exact .inl ho
    · exact .inr (.inl (Dict.mem_keys_erase.mp ho).1)
    · exact .inr (.inr (.inl ho))
    · rcases List.mem_cons.mp ho with rfl | ho
      · exact .inr (.inl (Dict.mem_keys_of_lookup found))
      · exact .inr (.inr (.inr ho))
  · intro other hi hs
    rcases interrupted_cons rfl hi with hi | ⟨rfl, hr⟩
    · exact h.halted other hi hs
    · exact halts hr hs

/-- The end of a call. -/
theorem Sound.wake (h : Sound capacity s) {call : RunCall}
    (found : s.calls.lookup name = some call) (result : RunEnd) :
    Sound capacity ((s.cancelUnstarted name).endCall name result) := by
  have hsame := sameCalls_cancelUnstarted s name
  refine (h.cancelUnstarted name).endCall (hsame.calls ▸ found) result fun _ hs => ?_
  exact h.cancelUnstarted_halts (hsame.submitted ▸ hs)

/-- A change of the waiting calls only. -/
theorem Sound.setCall (h : Sound capacity s) {call : RunCall}
    (found : s.calls.lookup name = some call) (new : RunCall) :
    Sound capacity { s with calls := Dict.set name new s.calls } := by
  refine { h with named := ?_ }
  intro other ho
  rw [Dict.keys_set_of_mem (Dict.mem_keys_of_lookup found)] at ho
  exact h.named other ho

/-- A new job takes the next name. -/
theorem Sound.reserve (h : Sound capacity s) {deadline : Option T} {now : T}
    {next : BlockingExecutor T} (reserved : s.reserve deadline now = .ok next) :
    Sound capacity next := by
  unfold BlockingExecutor.reserve at reserved
  split at reserved
  case isTrue => cases reserved
  case isFalse =>
    split at reserved
    case h_1 => cases reserved
    case h_2 due =>
      split at reserved
      case isTrue => cases reserved
      case isFalse =>
        split at reserved
        case isTrue => cases reserved
        case isFalse hroom =>
          cases reserved
          -- the new name is fresh: every name in use lies below `next`
          have hnext : s.next ∉ Dict.keys s.jobs := fun hk => (h.named _ (.inl hk)).false
          have hset := Dict.set_of_notMem hnext (⟨due, false, .created, false⟩ : Job T)
          have hslot : s.admission.slots.lookup s.next = none := by
            have hlocated := h.located s.next
            rwa [Dict.lookup_eq_none.mpr hnext] at hlocated
          have hunsubmitted : s.next ∉ s.submitted := fun hm =>
            (h.named _ (.inr (.inr (.inl hm)))).false
          have hunended : ¬ s.Interrupted s.next := by
            intro hi
            refine (h.named s.next (.inr (.inr (.inr ?_)))).false
            rcases hi with hi | hi <;> exact List.mem_map.mpr ⟨_, hi, rfl⟩
          refine { h with
            nodup := Dict.nodup_keys_set h.nodup _, bounded := ?_, located := ?_, booked := ?_,
            pool := ?_, named := ?_, halted := ?_ }
          · rw [hset, List.length_append]
            have := h.maximum
            simp only [List.length_singleton]
            omega
          · intro other
            by_cases he : other = s.next
            · rw [he, Dict.lookup_set_self]
              exact hslot
            · rw [Dict.lookup_set_of_ne he]
              exact h.located other
          · intro other job hj
            by_cases he : other = s.next
            · subst he
              obtain rfl := Option.some.inj ((Dict.lookup_set_self _ _ _).symm.trans hj)
              exact booked_created rfl ⟨rfl, hunsubmitted⟩
            · rw [Dict.lookup_set_of_ne he] at hj
              exact h.booked other job hj
          · intro other ho
            obtain ⟨job, hj, hphase⟩ := h.pool other ho
            have he : other ≠ s.next := by
              rintro rfl
              exact hnext (Dict.mem_keys_of_lookup hj)
            exact ⟨job, (Dict.lookup_set_of_ne he _ _).trans hj, hphase⟩
          · intro other ho
            by_cases he : other = s.next
            · rw [he]
              exact Nat.lt_succ_self _
            · rw [Dict.mem_keys_set, Dict.mem_keys_set, or_iff_right he, or_iff_right he] at ho
              exact (h.named other ho).trans (Nat.lt_succ_self _)
          · intro other hi hs job hj
            have he : other ≠ s.next := by
              rintro rfl
              exact hunended hi
            rw [Dict.lookup_set_of_ne he] at hj
            exact h.halted other hi hs job hj

omit [LinearOrder T] in
/-- A new task that nobody cancelled runs. -/
theorem alive_of_created {admission : Admission ℕ T} (hphase : job.phase = .created)
    (hcancelled : job.cancelled = false) : ¬ Halts admission name job := by
  rintro (hh | ⟨-, hh⟩ | ⟨hh, -⟩)
  · exact absurd (hphase.symm.trans hh) nofun
  · exact absurd (hcancelled.symm.trans hh) nofun
  · exact absurd (hphase.symm.trans hh) nofun

/-- A job that resumes waited for its slot, and it stays inside only when nobody cancelled it. -/
theorem Sound.resumed (h : Sound capacity s) (found : s.jobs.lookup name = some job) {now : T}
    {admission : Admission ℕ T} (taken : s.admission.step (.resume name now) = some admission) :
    job.phase = .waiting ∧ job.cancelled = false ∧
      (admission.slots.lookup name ≠ none → ¬ Halts s.admission name job) := by
  have hresumed := Admission.stepped taken
  have hwaits : ∃ slot, s.admission.slots.lookup name = some slot ∧ slot.phase ≠ .running := by
    cases hresumed with
    | resumed inside waits | abandoned inside waits => exact ⟨_, inside, by simp [waits]⟩
  obtain ⟨slot, hslot, hne⟩ := hwaits
  obtain ⟨current, hc, hphase⟩ := h.job_of_slot hslot hne
  obtain rfl := Option.some.inj (found.symm.trans hc)
  have hcancelled := (h.booked name job found).waiting hphase
  refine ⟨hphase, hcancelled, fun hin hh => ?_⟩
  rcases hresumed.resumed_lookup with hnone | ⟨⟨before, hb, hfree⟩, -⟩
  · exact hin hnone
  · rcases hh with hh | ⟨-, hh⟩ | ⟨-, after, _, ha, hwaits⟩
    · exact absurd (hphase.symm.trans hh) nofun
    · exact absurd (hcancelled.symm.trans hh) nofun
    · obtain rfl := Option.some.inj (hb.symm.trans ha)
      exact absurd (hfree.symm.trans hwaits) nofun

/-- The callback drops a job whose task is done. -/
theorem Sound.drop (h : Sound capacity s) (found : s.jobs.lookup name = some job)
    (hdone : job.phase = .done) : Sound capacity { s with jobs := Dict.erase name s.jobs } := by
  have hlookup : ∀ other current, (Dict.erase name s.jobs).lookup other = some current →
      s.jobs.lookup other = some current := by
    intro other current hc
    by_cases he : other = name
    · rw [he, Dict.lookup_erase_self] at hc
      cases hc
    · rwa [Dict.lookup_erase_of_ne he] at hc
  refine { h with
    nodup := Dict.nodup_keys_erase h.nodup name, bounded := ?_, located := ?_,
    booked := fun other current hc => h.booked other current (hlookup other current hc),
    pool := ?_, named := ?_,
    halted := fun other hi hs current hc => h.halted other hi hs current (hlookup other current hc) }
  · have := Dict.length_erase h.nodup found
    have := h.bounded
    show (Dict.erase name s.jobs).length ≤ _
    omega
  · intro other
    by_cases he : other = name
    · rw [he, Dict.lookup_erase_self]
      exact h.slot_none found (.inr hdone)
    · rw [Dict.lookup_erase_of_ne he]
      exact h.located other
  · intro other ho
    obtain ⟨current, hc, hphase⟩ := h.pool other ho
    have he : other ≠ name := by
      rintro rfl
      obtain rfl := Option.some.inj (found.symm.trans hc)
      exact absurd (hdone.symm.trans hphase) nofun
    exact ⟨current, (Dict.lookup_erase_of_ne he _).trans hc, hphase⟩
  · intro other ho
    exact h.named other (ho.imp_left fun hk => (Dict.mem_keys_erase.mp hk).1)

/-- Cancelling several tasks. -/
theorem cancelAll_sound (names : List ℕ) (h : Sound capacity s) :
    Sound capacity (names.foldl BlockingExecutor.cancelUnstarted s) ∧
      SameCalls s (names.foldl BlockingExecutor.cancelUnstarted s) := by
  induction names generalizing s with
  | nil => exact ⟨h, .refl s⟩
  | cons name names ih =>
    obtain ⟨hs, hsame⟩ := ih (h.cancelUnstarted name)
    exact ⟨hs, (sameCalls_cancelUnstarted s name).trans hsame⟩

/-- Every event. -/
theorem Sound.step (h : Sound capacity s) {event : BlockingEvent T} {next : BlockingExecutor T}
    (taken : s.step event = some next) : Sound capacity next := by
  cases event with
  | run deadline now =>
    simp only [BlockingExecutor.step] at taken
    split at taken
    case h_2 reserved =>
      cases taken
      exact h.reserve reserved
    case h_1 =>
      cases taken
      -- a refused call is only named, among those that ended
      refine { h with named := ?_, halted := ?_ }
      · intro other ho
        rcases ho with ho | ho | ho | ho
        · exact (h.named other (.inl ho)).trans (Nat.lt_succ_self _)
        · exact (h.named other (.inr (.inl ho))).trans (Nat.lt_succ_self _)
        · exact (h.named other (.inr (.inr (.inl ho)))).trans (Nat.lt_succ_self _)
        · rcases List.mem_cons.mp ho with rfl | ho
          · exact Nat.lt_succ_self _
          · exact (h.named other (.inr (.inr (.inr ho)))).trans (Nat.lt_succ_self _)
      · intro other hi
        rcases interrupted_cons rfl hi with hi | ⟨-, hr | hr⟩
        · exact h.halted other hi
        · cases hr
        · cases hr
  | expire name =>
    simp only [BlockingExecutor.step] at taken
    split at taken
    case h_1 call found =>
      cases taken
      exact h.setCall found _
    case h_2 => cases taken
  | cancel name =>
    simp only [BlockingExecutor.step] at taken
    split at taken
    case h_1 call found =>
      cases taken
      exact h.setCall found _
    case h_2 => cases taken
  | wake name =>
    simp only [BlockingExecutor.step] at taken
    split at taken
    case h_2 => cases taken
    case h_1 call found =>
      split at taken
      case isTrue =>
        cases taken
        -- the order of the wake-ups: a cancellation, then the deadline, then the end of the job
        exact h.wake found .cancelled
      case isFalse =>
        split at taken
        case isTrue =>
          cases taken
          exact h.wake found .timedOut
        case isFalse =>
          split at taken
          case isTrue =>
            cases taken
            exact h.endCall found .finished nofun
          case isFalse => cases taken
  | start name now later last accepts =>
    simp only [BlockingExecutor.step] at taken
    split at taken
    case h_2 => cases taken
    case h_1 job found =>
      split at taken
      case isTrue => cases taken
      case isFalse hcreated =>
        have hphase : job.phase = .created := not_not.mp hcreated
        split at taken
        case isTrue =>
          cases taken
          -- cancelled before its task ran: the job never asks for a slot
          exact h.setJob found (h.slot_none found (.inl hphase)) (booked_done rfl)
            (h.notMem_pool found (by simp [hphase])) fun _ _ => .inl rfl
        case isFalse hcancelled =>
          split at taken
          case h_2 => cases taken
          case h_1 admission arrived =>
            cases taken
            have hcancelled := Bool.eq_false_iff.mpr hcancelled
            exact h.enter found (.inl hphase) hcancelled arrived rfl (fun _ => h.room found hphase)
              (fun _ => alive_of_created hphase hcancelled) last accepts
  | expireSlot name =>
    simp only [BlockingExecutor.step] at taken
    split at taken
    case h_2 => cases taken
    case h_1 admission expired =>
      cases taken
      cases Admission.stepped expired with
      | @expired _ slot wasExpired cancelled inside waits =>
        obtain ⟨job, found, hphase⟩ := h.job_of_slot inside (by simp [waits])
        -- only a waiting slot expires, so the job is not running
        have hlookup : (s.admission.interrupt name slot true cancelled).slots.lookup name
            = some { slot with phase := .waiting true cancelled } := Dict.lookup_set_self _ _ _
        refine h.stepSlot found expired rfl nofun ?_ fun hi hs => ?_
        · simp [Located, hphase, hlookup]
        · rcases h.halted name hi hs job found with hh | ⟨hh, -⟩ | ⟨-, current, _, hc, hcancelled⟩
          · exact absurd (hphase.symm.trans hh) nofun
          · exact absurd (hphase.symm.trans hh) nofun
          · obtain rfl := Option.some.inj (inside.symm.trans hc)
            obtain ⟨-, rfl⟩ := SlotPhase.waiting.inj (waits.symm.trans hcancelled)
            exact .inr (.inr ⟨hphase, _, true, hlookup, rfl⟩)
  | resume name now last accepts =>
    simp only [BlockingExecutor.step] at taken
    split at taken
    case h_2 => cases taken
    case h_1 job admission found resumed =>
      cases taken
      obtain ⟨hphase, hcancelled, halive⟩ := h.resumed found resumed
      exact h.enter found (.inr hphase) hcancelled resumed rfl nofun halive last accepts
  | work name =>
    simp only [BlockingExecutor.step] at taken
    split at taken
    case isFalse => cases taken
    case isTrue =>
      cases taken
      -- the operation leaves the pool when it finishes; its job has still to run again
      exact { h with
        poolNodup := h.poolNodup.erase name
        pool := fun other ho => h.pool other (List.mem_of_mem_erase ho) }
  | complete name =>
    simp only [BlockingExecutor.step] at taken
    split at taken
    case h_2 => cases taken
    case h_1 job found =>
      split at taken
      case isFalse => cases taken
      case isTrue hready =>
        cases taken
        obtain ⟨hphase, hover⟩ := hready
        obtain ⟨slot, hslot, hruns⟩ := h.slot_running found hphase
        have hcancelled := ((h.booked name job found).awaiting hphase).2.1
        -- the thread is done with it, as the awaiting job is not cancelled
        have hunpooled : name ∉ s.pool := hover.resolve_right (by simp [hcancelled])
        exact h.leaveSlot found hslot hruns hunpooled job
  | finished name =>
    simp only [BlockingExecutor.step] at taken
    split at taken
    case h_2 => cases taken
    case h_1 job found =>
      split at taken
      case isFalse => cases taken
      case isTrue hdone =>
        cases taken
        exact h.drop found hdone
  | aclose dropped =>
    cases taken
    -- the close cancels every job that has not started; the pool may drop what no thread has begun
    obtain ⟨hs, hsame⟩ := cancelAll_sound (Dict.keys s.jobs)
      (show Sound capacity { s with closed := true } from { h with })
    exact { hs with
      poolNodup := hs.poolNodup.filter _
      pool := fun other ho => hs.pool other (List.mem_filter.mp ho).1 }

/-- Every reachable state. -/
theorem sound_of_reachable {clock : T} (h : (machine capacity clock).Reachable s) :
    Sound capacity s :=
  h.invariant (sound_new capacity clock) fun before taken => before.step taken

/-! ## Submissions -/

/-- A task is submitted when it enters the limiter. -/
theorem submitted_enter (s : BlockingExecutor T) (name : ℕ) (job : Job T)
    (admission : Admission ℕ T) (now : T) (accepts : Bool) :
    (s.enter name job admission now accepts).submitted = s.submitted ∨
      (s.enter name job admission now accepts).submitted = name :: s.submitted ∧
        s.closed = false ∧ admission.slots.lookup name ≠ none := by
  unfold BlockingExecutor.enter
  split
  case h_1 => exact .inl rfl
  case h_2 slot hslot =>
    split
    case h_1 => exact .inl rfl
    case h_2 =>
      unfold submit
      split
      case isTrue => exact .inl rfl
      case isFalse hopen =>
        split
        case isTrue => exact .inr ⟨rfl, Bool.eq_false_iff.mpr (not_or.mp hopen).1, by simp [hslot]⟩
        case isFalse => exact .inl rfl

/-- The calls that ended and the shutdown stay, and an operation is only submitted before the
shutdown and by a task that nothing halts. -/
structure Later (s next : BlockingExecutor T) : Prop where
  closed : s.closed = true → next.closed = true
  ended : ∀ entry ∈ s.ended, entry ∈ next.ended
  submitted : next.submitted = s.submitted ∨
    ∃ name job, next.submitted = name :: s.submitted ∧ s.closed = false ∧
      s.jobs.lookup name = some job ∧ ¬ Halts s.admission name job

/-- The end of a call submits nothing. -/
theorem later_wake (s : BlockingExecutor T) (name : ℕ) (result : RunEnd) :
    Later s ((s.cancelUnstarted name).endCall name result) := by
  have hsame := sameCalls_cancelUnstarted s name
  exact ⟨fun hc => hsame.closed.trans hc,
    fun _ he => List.mem_cons_of_mem _ (hsame.ended.symm ▸ he), .inl hsame.submitted⟩

/-- Entering the limiter submits at most that task. -/
theorem later_enter (found : s.jobs.lookup name = some job) {admission : Admission ℕ T}
    (alive : admission.slots.lookup name ≠ none → ¬ Halts s.admission name job) (now : T)
    (accepts : Bool) : Later s (s.enter name job admission now accepts) := by
  have hkept : (s.enter name job admission now accepts).closed = s.closed ∧
      (s.enter name job admission now accepts).ended = s.ended := by
    unfold BlockingExecutor.enter submit
    split
    · exact ⟨rfl, rfl⟩
    · split
      · exact ⟨rfl, rfl⟩
      · split
        · exact ⟨rfl, rfl⟩
        · split <;> exact ⟨rfl, rfl⟩
  refine ⟨fun hc => hkept.1.trans hc, fun _ he => hkept.2.symm ▸ he, ?_⟩
  exact (submitted_enter s name job admission now accepts).imp_right fun ⟨hs, hopen, hin⟩ =>
    ⟨name, job, hs, hopen, found, alive hin⟩

/-- What an event adds to the past. -/
theorem Sound.later (h : Sound capacity s) {event : BlockingEvent T} {next : BlockingExecutor T}
    (taken : s.step event = some next) : Later s next := by
  have hquiet : ∀ {next : BlockingExecutor T}, next.closed = s.closed → next.ended = s.ended →
      next.submitted = s.submitted → Later s next := fun hc he hs =>
    ⟨fun h => hc.trans h, fun _ hm => he.symm ▸ hm, .inl hs⟩
  -- only a submission, the end of a call and the close change the three fields that are watched
  cases event with
  | run deadline now =>
    simp only [BlockingExecutor.step] at taken
    split at taken
    case h_1 =>
      cases taken
      exact ⟨id, fun _ he => List.mem_cons_of_mem _ he, .inl rfl⟩
    case h_2 reserved =>
      cases taken
      unfold BlockingExecutor.reserve at reserved
      split at reserved
      · cases reserved
      · split at reserved
        · cases reserved
        · split at reserved
          · cases reserved
          · split at reserved
            · cases reserved
            · cases reserved
              exact hquiet rfl rfl rfl
  | expire name | cancel name | work name | finished name | complete name | expireSlot name =>
    simp only [BlockingExecutor.step] at taken
    repeat' split at taken
    all_goals cases taken
    all_goals exact hquiet rfl rfl rfl
  | wake name =>
    simp only [BlockingExecutor.step] at taken
    split at taken
    case h_2 => cases taken
    case h_1 =>
      split at taken
      case isTrue =>
        cases taken
        -- a caller that gives up ends, and its job may be cancelled with it
        exact later_wake s name .cancelled
      case isFalse =>
        split at taken
        case isTrue =>
          cases taken
          exact later_wake s name .timedOut
        case isFalse =>
          split at taken
          case isTrue =>
            cases taken
            exact ⟨id, fun _ he => List.mem_cons_of_mem _ he, .inl rfl⟩
          case isFalse => cases taken
  | start name now later last accepts =>
    simp only [BlockingExecutor.step] at taken
    split at taken
    case h_2 => cases taken
    case h_1 job found =>
      split at taken
      case isTrue => cases taken
      case isFalse hcreated =>
        split at taken
        case isTrue =>
          cases taken
          exact hquiet rfl rfl rfl
        case isFalse hcancelled =>
          split at taken
          case h_2 => cases taken
          case h_1 admission arrived =>
            cases taken
            exact later_enter found (fun _ => alive_of_created (not_not.mp hcreated)
              (Bool.eq_false_iff.mpr hcancelled)) last accepts
  | resume name now last accepts =>
    simp only [BlockingExecutor.step] at taken
    split at taken
    case h_2 => cases taken
    case h_1 job admission found resumed =>
      cases taken
      exact later_enter found (h.resumed found resumed).2.2 last accepts
  | aclose dropped =>
    cases taken
    obtain ⟨-, hsame⟩ := cancelAll_sound (Dict.keys s.jobs)
      (show Sound capacity { s with closed := true } from { h with })
    exact ⟨fun _ => hsame.closed, fun _ he => hsame.ended.symm ▸ he, .inl hsame.submitted⟩

/-! ## Bounds under every interleaving -/

/-- A call that ended by a timeout or a cancellation before its submission is never submitted. -/
theorem Sound.never_submitted (h : Sound capacity s) {clock : T} (hi : s.Interrupted name)
    (hs : name ∉ s.submitted) (events : List (BlockingEvent T)) {last : BlockingExecutor T}
    (ran : (machine capacity clock).run s events = some last) : name ∉ last.submitted := by
  have hlast : Sound capacity last ∧ last.Interrupted name ∧ name ∉ last.submitted := by
    refine Machine.run_invariant (P := fun s => Sound capacity s ∧ s.Interrupted name ∧
      name ∉ s.submitted) ?_ ⟨h, hi, hs⟩ events ran
    rintro state event next ⟨hsound, hint, hsub⟩ taken
    have hlater := hsound.later taken
    refine ⟨hsound.step taken, hint.imp (hlater.ended _) (hlater.ended _), ?_⟩
    rcases hlater.submitted with he | ⟨other, job, he, -, found, alive⟩
    · rwa [he]
    · rw [he, List.mem_cons, not_or]
      refine ⟨?_, hsub⟩
      rintro rfl
      exact alive (hsound.halted name hint hsub job found)
  exact hlast.2.2

/-- Nothing is submitted after the shutdown began. -/
theorem Sound.closed_submits_nothing (h : Sound capacity s) {clock : T} (hc : s.closed = true)
    (events : List (BlockingEvent T)) {last : BlockingExecutor T}
    (ran : (machine capacity clock).run s events = some last) : last.submitted = s.submitted := by
  have hlast : Sound capacity last ∧ last.closed = true ∧ last.submitted = s.submitted := by
    refine Machine.run_invariant (P := fun state => Sound capacity state ∧ state.closed = true ∧
      state.submitted = s.submitted) ?_ ⟨h, hc, rfl⟩ events ran
    rintro state event next ⟨hsound, hclosed, hsub⟩ taken
    have hlater := hsound.later taken
    refine ⟨hsound.step taken, hlater.closed hclosed, ?_⟩
    rcases hlater.submitted with he | ⟨_, _, -, hopen, -⟩
    · exact he.trans hsub
    · rw [hclosed] at hopen
      cases hopen
  exact hlast.2.2

/-- A submitted operation that has not finished holds a slot, so there are at most as many of them
as permits. -/
theorem Sound.pool_length (h : Sound capacity s) : s.pool.length ≤ capacity.concurrency := by
  have hsub : s.pool ⊆ Dict.keys (s.admission.slots.filter (·.2.phase = .running)) := by
    intro name hp
    obtain ⟨job, found, hphase⟩ := h.pool name hp
    obtain ⟨slot, hslot, hruns⟩ := h.slot_running found hphase
    exact List.mem_map.mpr ⟨_, List.mem_filter.mpr ⟨Dict.mem_of_lookup hslot, by simpa using hruns⟩,
      rfl⟩
  have hle := (List.subperm_of_subset h.poolNodup hsub).length_le
  rw [Dict.keys, List.length_map, ← List.countP_eq_length_filter] at hle
  have hpermits := h.consistent.permits
  unfold Admission.running at hpermits
  omega

/-- In every run of an executor the tracked jobs and the submitted operations are bounded, operations
keep their permit, the limiter has room for every job, and interrupted calls and a shutdown stop what
is not submitted. -/
theorem blocking_bounded {clock : T} (h : (machine capacity clock).Reachable s) :
    s.jobs.length ≤ capacity.concurrency + capacity.queueLimit ∧
      (s.pool.length ≤ capacity.concurrency ∧ ∀ name ∈ s.pool, ∃ slot,
        s.admission.slots.lookup name = some slot ∧ slot.phase = .running) ∧
      (∀ name, s.Interrupted name → name ∉ s.submitted → ∀ events last,
        (machine capacity clock).run s events = some last → name ∉ last.submitted) ∧
      (∀ name, (name, SlotEnd.failed CapacityLimiter.overloaded) ∉ s.admission.ended) ∧
      (s.closed = true → ∀ events last, (machine capacity clock).run s events = some last →
        last.submitted = s.submitted) := by
  have hs := sound_of_reachable h
  refine ⟨hs.bounded, ⟨hs.pool_length, ?_⟩, ?_, ?_, ?_⟩
  · intro name hp
    obtain ⟨job, found, hphase⟩ := hs.pool name hp
    exact hs.slot_running found hphase
  · intro name hi hn events last ran
    exact hs.never_submitted hi hn events ran
  · intro name hm
    exact hs.unrejected _ hm rfl
  · intro hc events last ran
    exact hs.closed_submits_nothing hc events ran

/-- One worker and no queue. -/
def oneWorker : Machine (BlockingExecutor ℕ) (BlockingEvent ℕ) := machine Admission.single 0

/-- The first call is cancelled while its task has not had its first step. -/
def cancelledEarly : BlockingExecutor ℕ :=
  { new Admission.single 0 with
    jobs := [(0, ⟨5, false, .created, false⟩)]
    calls := [(0, ⟨false, true⟩)]
    next := 1 }

/-- The state is reached. -/
theorem cancelledEarly_reachable : oneWorker.Reachable cancelledEarly :=
  Machine.Reachable.start.run [.run (some 5) 0, .cancel 0] rfl

/-- The state is within its bounds. -/
theorem cancelledEarly_bounded :
    cancelledEarly.jobs.length ≤ 1 + 0 ∧ cancelledEarly.pool.length ≤ 1 :=
  have h := blocking_bounded cancelledEarly_reachable
  ⟨h.1, h.2.1.1⟩

/-- The cancellation of a call reaches it only when its task runs again: until then the task of the
job still submits the operation. -/
theorem cancelled_call_submits :
    oneWorker.Reachable cancelledEarly ∧ cancelledEarly.calls.lookup 0 = some ⟨false, true⟩ ∧
      cancelledEarly.submitted = [] ∧
      ∃ submitted woken, cancelledEarly.step (.start 0 0 0 0 true) = some submitted ∧
        submitted.submitted = [0] ∧ submitted.step (.wake 0) = some woken ∧
        woken.Interrupted 0 ∧ 0 ∈ woken.pool :=
  ⟨cancelledEarly_reachable, rfl, rfl, _, _, rfl, rfl, rfl, .inr (List.mem_singleton.mpr rfl),
    List.mem_singleton.mpr rfl⟩

end BlockingExecutor

end Foliqant.Adapters
