import Foliqant.Common.Dict
import Foliqant.Common.Machine
import Mathlib.Algebra.Order.Ring.Int

/-!
# Shutdown of an application

`WorkflowApplication._invoke` counts the invocations in flight of each host task, `aclose` waits for
the tasks that carry one and cancels those that are left, and `drain_before_close` repeats `aclose`
until it succeeds, whatever cancels its caller.

Invocations and host tasks have different lifetimes: a task may make several calls, one inside another
or one after the other, and go on with other work after its last call returned. The model keeps both:
`flights` are the invocations in flight, `active` is the table the application keeps of them, and
`done` are the host tasks that ended. The records `cancelled`, `closed` and `drained` note what was in
flight when `aclose` cancelled a task, when it returned and when a drain ended.

`aclose` waits for the tasks and not for the invocations. A task that outlives its last invocation is
waited for, cancelled and reported as unfinished, although nothing of it is in flight any more.
-/

namespace Foliqant.Application

/-- Who runs an `aclose`: a host task, or the own task of a drain, which carries no invocation. -/
inductive Closer where
  | host (task : ℕ)
  | drain (name : ℕ)
  deriving DecidableEq, Repr

/-- Whether the invocations of a task are those of the closer itself. -/
def Closer.owns (closer : Closer) (task : ℕ) : Bool := closer = .host task

/-- An `aclose` that waits; `second` after it has cancelled the tasks that were left. -/
structure Close where
  closer : Closer
  waited : List ℕ
  second : Bool
  deriving DecidableEq

/-- Where `drain_before_close` is. -/
inductive DrainPhase where
  /-- About to call `aclose`, for the first time or again. -/
  | calling
  | closing
  /-- The inner `drain` returned. -/
  | finished
  deriving DecidableEq, Repr

/-- A caller that drains a close. -/
structure Drain where
  phase : DrainPhase
  /-- A cancellation reached the caller behind its shield; it is raised at the end. -/
  cancelled : Bool
  deriving DecidableEq

/-- A cancellation by `aclose` and the invocations the task then had in flight. -/
structure Cancellation where
  task : ℕ
  inFlight : ℕ
  deriving DecidableEq

/-- A result of `aclose` and the invocations of other tasks then in flight. -/
structure CloseResult where
  result : Bool
  others : ℕ
  deriving DecidableEq

/-- The state of an application with its calls and closes. -/
structure WorkflowApplication where
  ready : Bool
  active : List (ℕ × ℤ)
  flights : List (ℕ × ℕ)
  done : List ℕ
  closes : List (ℕ × Close)
  drains : List (ℕ × Drain)
  cancelled : List Cancellation
  closed : List CloseResult
  drained : List ℕ
  /-- The next name of an invocation, a close or a drain. -/
  next : ℕ
  deriving DecidableEq

/-- A step of a host task, of a close or of a drain. -/
inductive ShutdownEvent where
  /-- A host task calls `run`, `run_flow` or `run_step`; an unknown workflow or an envelope that is
  not accepted is refused. -/
  | invoke (task : ℕ) (refused : Bool)
  /-- An invocation ends in any way. -/
  | leave (invocation : ℕ)
  /-- A host task ends. -/
  | endTask (task : ℕ)
  | aclose (task : ℕ)
  /-- The wait of a close ends: every task is done or the time is over. -/
  | wake (close : ℕ)
  /-- The host task of a close is cancelled while it waits. -/
  | abort (close : ℕ)
  | drain
  /-- The inner `drain` calls `aclose`. -/
  | drainCloses (drain : ℕ)
  | cancelDrain (drain : ℕ)
  /-- `drain_before_close` returns, or raises the cancellation it received. -/
  | drainReturns (drain : ℕ)
  deriving DecidableEq, Repr

namespace WorkflowApplication

/-- An application without calls. -/
def new : WorkflowApplication where
  ready := true
  active := []
  flights := []
  done := []
  closes := []
  drains := []
  cancelled := []
  closed := []
  drained := []
  next := 0

/-- The invocations of a task in flight. -/
def inFlight (s : WorkflowApplication) (task : ℕ) : ℕ := s.flights.countP (·.2 = task)

/-- The invocations in flight that are not the closer's own. -/
def others (s : WorkflowApplication) (closer : Closer) : ℕ :=
  s.flights.countP fun flight => !closer.owns flight.2

/-- `self._active.get(task, 0)`. -/
def count (s : WorkflowApplication) (task : ℕ) : ℤ := (s.active.lookup task).getD 0

/-- The `finally` block of `_invoke`. -/
def release (s : WorkflowApplication) (task : ℕ) : List (ℕ × ℤ) :=
  let remaining := s.count task - 1
  if remaining ≠ 0 then Dict.set task remaining s.active else Dict.erase task s.active

/-- `aclose` returns; a drain goes on with the result. -/
def closeReturns (s : WorkflowApplication) (closer : Closer) (result : Bool) :
    WorkflowApplication :=
  { s with
    closed := ⟨result, s.others closer⟩ :: s.closed
    drains :=
      match closer with
      | .host _ => s.drains
      | .drain name =>
          match s.drains.lookup name with
          | some drain =>
              let phase := if result then .finished else .calling
              Dict.set name { drain with phase } s.drains
          | none => s.drains }

/-- `aclose` up to its first wait; the checks of the timeout come before. -/
def close (s : WorkflowApplication) (closer : Closer) : WorkflowApplication :=
  let s := { s with ready := false }
  let tasks := (Dict.keys s.active).filter fun task => !closer.owns task
  if tasks = [] then s.closeReturns closer true
  else { s with closes := Dict.set s.next ⟨closer, tasks, false⟩ s.closes, next := s.next + 1 }

/-- `aclose` after a wait: cancel the tasks that are left and wait again, or return. -/
def afterWait (s : WorkflowApplication) (name : ℕ) (close : Close) : WorkflowApplication :=
  let pending := close.waited.filter (· ∉ s.done)
  if close.second ∨ pending = [] then
    { s with closes := Dict.erase name s.closes }.closeReturns close.closer (pending = [])
  else
    { s with
      closes := Dict.set name { close with waited := pending, second := true } s.closes
      cancelled := pending.map (fun task => ⟨task, s.inFlight task⟩) ++ s.cancelled }

/-- One event of a caller or of the event loop. -/
def step (s : WorkflowApplication) : ShutdownEvent → Option WorkflowApplication
  | .invoke task refused =>
      if task ∈ s.done then none
      else if !s.ready || refused then some s
      else
        some
          { s with
            active := Dict.set task (s.count task + 1) s.active
            flights := Dict.set s.next task s.flights
            next := s.next + 1 }
  | .leave invocation =>
      match s.flights.lookup invocation with
      | some task =>
          some
            { s with
              active := s.release task
              flights := Dict.erase invocation s.flights }
      | none => none
  | .endTask task =>
      if task ∈ s.done ∨ 0 < s.inFlight task then none
      else some { s with done := task :: s.done }
  | .aclose task => if task ∈ s.done then none else some (s.close (.host task))
  | .wake name =>
      match s.closes.lookup name with
      | some close => some (s.afterWait name close)
      | none => none
  | .abort name =>
      match s.closes.lookup name with
      | some ⟨.host _, _, _⟩ => some { s with closes := Dict.erase name s.closes }
      -- Only `drain_before_close` knows the task of a drain, and it never cancels it.
      | _ => none
  | .drain =>
      some { s with drains := Dict.set s.next ⟨.calling, false⟩ s.drains, next := s.next + 1 }
  | .drainCloses name =>
      match s.drains.lookup name with
      | some drain =>
          if drain.phase = .calling then
            some ({ s with drains := Dict.set name { drain with phase := .closing } s.drains }.close
              (.drain name))
          else none
      | none => none
  | .cancelDrain name =>
      match s.drains.lookup name with
      | some drain => some { s with drains := Dict.set name { drain with cancelled := true } s.drains }
      | none => none
  | .drainReturns name =>
      match s.drains.lookup name with
      | some drain =>
          if drain.phase = .finished then
            some
              { s with
                drains := Dict.erase name s.drains
                drained := s.flights.length :: s.drained }
          else none
      | none => none

/-- All runs of an application. -/
def machine : Machine WorkflowApplication ShutdownEvent where
  start := new
  step := step

/-! ## The invariant -/

/-- The table counts the invocations in flight, and every close waits for the tasks of all the
invocations but its own closer's. -/
structure Consistent (s : WorkflowApplication) : Prop where
  flights : (Dict.keys s.flights).Nodup
  active : (Dict.keys s.active).Nodup
  counts : ∀ task, s.count task = s.inFlight task
  listed : ∀ task ∈ Dict.keys s.active, 0 < s.inFlight task
  alive : ∀ flight ∈ s.flights, flight.2 ∉ s.done
  named : ∀ name ∈ Dict.keys s.flights, name < s.next
  closing : s.closes ≠ [] → s.ready = false
  covered : ∀ name close, s.closes.lookup name = some close → ∀ flight ∈ s.flights,
    close.closer.owns flight.2 = false → flight.2 ∈ close.waited
  /-- A successful close leaves nothing of other tasks in flight. -/
  succeeded : ∀ closed ∈ s.closed, closed.result = true → closed.others = 0
  finished : ∀ name drain, s.drains.lookup name = some drain → drain.phase = .finished →
    s.ready = false ∧ s.flights = []
  drained : ∀ left ∈ s.drained, left = 0

/-- The start. -/
theorem consistent_new : Consistent new where
  flights := List.nodup_nil
  active := List.nodup_nil
  counts _ := rfl
  listed _ h := by cases h
  alive _ h := by cases h
  named _ h := by cases h
  closing h := absurd rfl h
  covered _ _ h := by cases h
  succeeded _ h := by cases h
  finished _ _ h := by cases h
  drained _ h := by cases h

variable {s next : WorkflowApplication} {task name : ℕ}

/-- A task with a call in flight. -/
theorem inFlight_pos : 0 < s.inFlight task ↔ ∃ flight ∈ s.flights, flight.2 = task := by
  simp [inFlight, List.countP_pos_iff]

/-- A task with an invocation in flight is in the table. -/
theorem Consistent.mem_active (h : Consistent s) (hp : 0 < s.inFlight task) :
    task ∈ Dict.keys s.active := by
  by_contra hm
  have hcount := h.counts task
  rw [count, Dict.lookup_eq_none.mpr hm] at hcount
  simp only [Option.getD_none] at hcount
  omega

/-- A closer waits for its own calls only. -/
theorem others_eq_zero {closer : Closer} :
    s.others closer = 0 ↔ ∀ flight ∈ s.flights, closer.owns flight.2 = true := by
  simp [others, List.countP_eq_zero]

/-- A close returns: it succeeds only when it leaves nothing of other tasks in flight. -/
theorem Consistent.closeReturns (h : Consistent s) (hready : s.ready = false) {closer : Closer}
    {result : Bool} (hresult : result = true → s.others closer = 0) :
    Consistent (s.closeReturns closer result) := by
  refine { h with succeeded := ?_, finished := ?_ }
  · intro closed hc
    rcases List.mem_cons.mp hc with rfl | hc
    · exact hresult
    · exact h.succeeded closed hc
  · cases closer with
    | host task => exact h.finished
    | drain own =>
      intro name drain hd hphase
      simp only [WorkflowApplication.closeReturns] at hd
      split at hd
      case h_2 => exact h.finished name drain hd hphase
      case h_1 current hcurrent =>
        by_cases he : name = own
        · subst he
          obtain rfl := Option.some.inj ((Dict.lookup_set_self _ _ _).symm.trans hd)
          cases result with
          | false => cases hphase
          | true =>
            refine ⟨hready, List.eq_nil_iff_forall_not_mem.mpr fun flight hf => ?_⟩
            have := others_eq_zero.mp (hresult rfl) flight hf
            cases this
        · rw [Dict.lookup_set_of_ne he] at hd
          exact h.finished name drain hd hphase

/-- `aclose` up to its first wait. -/
theorem Consistent.close (h : Consistent s) (closer : Closer) : Consistent (s.close closer) := by
  have hclosed : Consistent { s with ready := false } :=
    { h with
      closing := fun _ => rfl
      finished := fun name drain hd hp => ⟨rfl, (h.finished name drain hd hp).2⟩ }
  have hactive : ∀ flight ∈ s.flights, closer.owns flight.2 = false →
      flight.2 ∈ (Dict.keys s.active).filter fun task => !closer.owns task := by
    intro flight hf ho
    exact List.mem_filter.mpr ⟨h.mem_active (inFlight_pos.mpr ⟨flight, hf, rfl⟩), by simp [ho]⟩
  simp only [WorkflowApplication.close]
  split
  case isTrue hnil =>
    refine hclosed.closeReturns rfl fun _ => others_eq_zero.mpr fun flight hf => ?_
    by_contra ho
    have := hactive flight hf (Bool.eq_false_iff.mpr ho)
    rw [hnil] at this
    cases this
  case isFalse =>
    refine { hclosed with named := ?_, covered := ?_, closing := fun _ => rfl }
    · exact fun name hn => Nat.lt_succ_of_lt (h.named name hn)
    · intro name close hc
      by_cases he : name = s.next
      · subst he
        obtain rfl := Option.some.inj ((Dict.lookup_set_self _ _ _).symm.trans hc)
        exact hactive
      · rw [Dict.lookup_set_of_ne he] at hc
        exact h.covered name close hc

/-- A close ends without a result. -/
theorem Consistent.dropClose (h : Consistent s) (hready : s.ready = false) :
    Consistent { s with closes := Dict.erase name s.closes } := by
  refine { h with closing := fun _ => hready, covered := ?_ }
  intro other current hc
  by_cases he : other = name
  · rw [he, Dict.lookup_erase_self] at hc
    cases hc
  · rw [Dict.lookup_erase_of_ne he] at hc
    exact h.covered other current hc

/-- An application that closes is not ready. -/
theorem Consistent.closing_ready (h : Consistent s) {close : Close}
    (found : s.closes.lookup name = some close) : s.ready = false := by
  refine h.closing ?_
  intro hnil
  rw [hnil] at found
  cases found

/-- `aclose` after a wait. -/
theorem Consistent.afterWait (h : Consistent s) {close : Close}
    (found : s.closes.lookup name = some close) : Consistent (s.afterWait name close) := by
  have hready := h.closing_ready found
  have hpending : ∀ flight ∈ s.flights, close.closer.owns flight.2 = false →
      flight.2 ∈ close.waited.filter (· ∉ s.done) := by
    intro flight hf ho
    exact List.mem_filter.mpr ⟨h.covered name close found flight hf
      ho, by simpa using h.alive flight hf⟩
  simp only [WorkflowApplication.afterWait]
  split
  case isTrue =>
    refine (h.dropClose hready).closeReturns hready fun hnil =>
      others_eq_zero.mpr fun flight hf => ?_
    by_contra ho
    have := hpending flight hf (Bool.eq_false_iff.mpr ho)
    rw [of_decide_eq_true hnil] at this
    cases this
  case isFalse =>
    refine { h with closing := fun _ => hready, covered := ?_ }
    intro other current hc
    by_cases he : other = name
    · subst he
      obtain rfl := Option.some.inj ((Dict.lookup_set_self _ _ _).symm.trans hc)
      exact hpending
    · rw [Dict.lookup_set_of_ne he] at hc
      exact h.covered other current hc

/-- A call starts; its task is alive. -/
theorem Consistent.invoke (h : Consistent s) (hready : s.ready = true) (halive : task ∉ s.done) :
    Consistent
      { s with
        active := Dict.set task (s.count task + 1) s.active
        flights := Dict.set s.next task s.flights
        next := s.next + 1 } := by
  have hnew : s.next ∉ Dict.keys s.flights := fun hn => (h.named _ hn).false
  have hset : Dict.set s.next task s.flights = s.flights ++ [(s.next, task)] :=
    Dict.set_of_notMem hnew task
  have hcount : ∀ other, (Dict.set s.next task s.flights).countP (·.2 = other)
      = s.inFlight other + if task = other then 1 else 0 := by
    intro other
    rw [hset, List.countP_append, inFlight]
    simp
  have hmem : ∀ flight ∈ Dict.set s.next task s.flights, flight ∈ s.flights ∨ flight.2 = task := by
    intro flight hf
    rcases Dict.mem_set hf with rfl | hf
    · exact .inr rfl
    · exact .inl hf
  have hcloses : s.closes = [] := by
    by_contra hne
    have := h.closing hne
    rw [hready] at this
    cases this
  refine ⟨Dict.nodup_keys_set h.flights task, Dict.nodup_keys_set h.active _, ?_, ?_, ?_, ?_,
    h.closing, ?_, h.succeeded, ?_, h.drained⟩
  · intro other
    show (List.lookup other (Dict.set task (s.count task + 1) s.active)).getD 0
      = ((Dict.set s.next task s.flights).countP (·.2 = other) : ℕ)
    rw [hcount]
    by_cases he : other = task
    · subst he
      rw [Dict.lookup_set_self, if_pos rfl, h.counts other, Option.getD_some, Nat.cast_add_one]
    · rw [Dict.lookup_set_of_ne he, if_neg (Ne.symm he)]
      exact h.counts other
  · intro other ho
    show 0 < (Dict.set s.next task s.flights).countP (·.2 = other)
    rw [hcount]
    rcases Dict.mem_keys_set.mp ho with rfl | ho
    · simp
    · exact Nat.add_pos_left (h.listed other ho) _
  · intro flight hf
    rcases hmem flight hf with hf | hf
    · exact h.alive flight hf
    · rwa [hf]
  · intro name hn
    rcases Dict.mem_keys_set.mp hn with rfl | hn
    · exact Nat.lt_succ_self _
    · exact Nat.lt_succ_of_lt (h.named name hn)
  · intro name close hc
    rw [hcloses] at hc
    cases hc
  · intro name drain hd hphase
    have := (h.finished name drain hd hphase).1
    rw [hready] at this
    cases this

/-- A call ends. -/
theorem Consistent.leave (h : Consistent s) {invocation : ℕ}
    (found : s.flights.lookup invocation = some task) :
    Consistent
      { s with active := s.release task, flights := Dict.erase invocation s.flights } := by
  have hcount : ∀ other, s.inFlight other
      = (Dict.erase invocation s.flights).countP (·.2 = other) + if task = other then 1 else 0 := by
    intro other
    simpa [inFlight] using
      Dict.countP_erase (fun flight : ℕ × ℕ => decide (flight.2 = other)) h.flights found
  have hsub : ∀ flight ∈ Dict.erase invocation s.flights, flight ∈ s.flights := fun flight hf =>
    (List.mem_filter.mp hf).1
  have hself := hcount task
  rw [if_pos rfl] at hself
  have hcounts := h.counts task
  have hlookup : ∀ other, ((s.release task).lookup other).getD 0
      = ((Dict.erase invocation s.flights).countP (·.2 = other) : ℕ) := by
    intro other
    unfold WorkflowApplication.release
    by_cases he : other = task
    · subst he
      by_cases hz : s.count other - 1 ≠ 0
      · rw [if_pos hz, Dict.lookup_set_self, Option.getD_some]
        omega
      · rw [if_neg hz, Dict.lookup_erase_self, Option.getD_none]
        omega
    · have hother := hcount other
      rw [if_neg (Ne.symm he), Nat.add_zero] at hother
      rw [← hother, ← h.counts other]
      by_cases hz : s.count task - 1 ≠ 0
      · rw [if_pos hz, Dict.lookup_set_of_ne he]
        rfl
      · rw [if_neg hz, Dict.lookup_erase_of_ne he]
        rfl
  refine ⟨Dict.nodup_keys_erase h.flights invocation, ?_, hlookup, ?_, fun flight hf =>
    h.alive flight (hsub flight hf), ?_, h.closing, fun name close hc flight hf =>
    h.covered name close hc flight (hsub flight hf), h.succeeded, ?_, h.drained⟩
  · show (Dict.keys (s.release task)).Nodup
    simp only [WorkflowApplication.release]
    split
    · exact Dict.nodup_keys_set h.active _
    · exact Dict.nodup_keys_erase h.active task
  · intro other ho
    show 0 < (Dict.erase invocation s.flights).countP (·.2 = other)
    simp only [WorkflowApplication.release] at ho
    by_cases he : other = task
    · subst he
      -- Its last invocation would have taken the task out of the table.
      have hz : s.count other - 1 ≠ 0 := by
        intro hz
        rw [if_neg (not_not.mpr hz)] at ho
        exact (Dict.mem_keys_erase.mp ho).2 rfl
      omega
    · have hother := hcount other
      rw [if_neg (Ne.symm he), Nat.add_zero] at hother
      rw [← hother]
      refine h.listed other ?_
      split at ho
      · exact (Dict.mem_keys_set.mp ho).resolve_left he
      · exact (Dict.mem_keys_erase.mp ho).1
  · intro name hn
    exact h.named name (Dict.mem_keys_erase.mp hn).1
  · intro name drain hd hphase
    obtain ⟨hready, hnil⟩ := h.finished name drain hd hphase
    refine ⟨hready, ?_⟩
    rw [hnil]
    rfl

/-- A change of the drains that finishes none of them. -/
theorem Consistent.setDrain (h : Consistent s) {drain : Drain}
    (unfinished : drain.phase = .finished → s.ready = false ∧ s.flights = []) :
    Consistent { s with drains := Dict.set name drain s.drains } := by
  refine { h with finished := ?_ }
  intro other current hd hphase
  by_cases he : other = name
  · subst he
    obtain rfl := Option.some.inj ((Dict.lookup_set_self _ _ _).symm.trans hd)
    exact unfinished hphase
  · rw [Dict.lookup_set_of_ne he] at hd
    exact h.finished other current hd hphase

/-- Every event. -/
theorem Consistent.step (h : Consistent s) {event : ShutdownEvent}
    (taken : s.step event = some next) : Consistent next := by
  cases event with
  | invoke task refused =>
    simp only [WorkflowApplication.step] at taken
    split at taken
    case isTrue => cases taken
    case isFalse halive =>
      split at taken
      case isTrue =>
        cases taken
        exact h
      case isFalse hopen =>
        cases taken
        -- accepted: neither closing nor closed
        refine h.invoke ?_ halive
        simp only [Bool.or_eq_true, not_or, Bool.not_eq_true, Bool.not_eq_false'] at hopen
        exact hopen.1
  | leave invocation =>
    simp only [WorkflowApplication.step] at taken
    split at taken
    case h_2 => cases taken
    case h_1 task found =>
      cases taken
      exact h.leave found
  | endTask task =>
    simp only [WorkflowApplication.step] at taken
    split at taken
    case isTrue => cases taken
    case isFalse hidle =>
      cases taken
      refine { h with alive := ?_ }
      intro flight hf
      rw [List.mem_cons, not_or]
      refine ⟨?_, h.alive flight hf⟩
      intro he
      -- a task with a call in flight has not ended
      exact hidle (.inr (inFlight_pos.mpr ⟨flight, hf, he⟩))
  | aclose task =>
    simp only [WorkflowApplication.step] at taken
    split at taken
    case isTrue => cases taken
    case isFalse =>
      cases taken
      exact h.close (.host task)
  | wake name =>
    simp only [WorkflowApplication.step] at taken
    split at taken
    case h_2 => cases taken
    case h_1 close found =>
      cases taken
      exact h.afterWait found
  | abort name =>
    simp only [WorkflowApplication.step] at taken
    split at taken
    case h_2 => cases taken
    case h_1 found =>
      cases taken
      exact h.dropClose (h.closing_ready found)
  | drain =>
    cases taken
    -- a drain starts by calling the host; only its name is new
    have hdrain : Consistent { s with drains := Dict.set s.next ⟨.calling, false⟩ s.drains } :=
      h.setDrain nofun
    exact { hdrain with named := fun name hn => Nat.lt_succ_of_lt (h.named name hn) }
  | drainCloses name =>
    simp only [WorkflowApplication.step] at taken
    split at taken
    case h_2 => cases taken
    case h_1 drain found =>
      split at taken
      case isFalse => cases taken
      case isTrue =>
        cases taken
        have hdrain : Consistent
            { s with drains := Dict.set name { drain with phase := .closing } s.drains } :=
          h.setDrain nofun
        exact hdrain.close (.drain name)
  | cancelDrain name =>
    simp only [WorkflowApplication.step] at taken
    split at taken
    case h_2 => cases taken
    case h_1 drain found =>
      cases taken
      exact h.setDrain (h.finished name drain found)
  | drainReturns name =>
    simp only [WorkflowApplication.step] at taken
    split at taken
    case h_2 => cases taken
    case h_1 drain found =>
      split at taken
      case isFalse => cases taken
      case isTrue hphase =>
        cases taken
        -- a finished drain has seen every invocation end, which is what a returned one promises
        have hnil := (h.finished name drain found hphase).2
        refine { h with finished := ?_, drained := ?_ }
        · intro other current hd
          by_cases he : other = name
          · rw [he, Dict.lookup_erase_self] at hd
            cases hd
          · rw [Dict.lookup_erase_of_ne he] at hd
            exact h.finished other current hd
        · intro left hl
          rcases List.mem_cons.mp hl with rfl | hl
          · rw [hnil]
            rfl
          · exact h.drained left hl

/-- Every run. -/
theorem consistent_of_run {events : List ShutdownEvent}
    (ran : machine.run machine.start events = some s) : Consistent s :=
  Machine.run_invariant (P := Consistent) (fun before taken => before.step taken) consistent_new
    events ran

/-! ## After the shutdown began -/

/-- No invocation starts once the application is not ready. -/
theorem flights_step (hready : s.ready = false) {event : ShutdownEvent}
    (taken : s.step event = some next) : next.ready = false ∧ next.flights ⊆ s.flights := by
  -- a close ends readiness and keeps the flights
  have hclose : ∀ (state : WorkflowApplication) (closer : Closer),
      (state.close closer).ready = false ∧ (state.close closer).flights = state.flights := by
    intro state closer
    simp only [WorkflowApplication.close]
    split <;> exact ⟨rfl, rfl⟩
  cases event with
  | invoke task refused =>
    simp only [WorkflowApplication.step, hready] at taken
    split at taken
    · cases taken
    · cases taken
      exact ⟨hready, List.Subset.refl _⟩
  | leave invocation =>
    simp only [WorkflowApplication.step] at taken
    split at taken
    · cases taken
      exact ⟨hready, fun _ hf => (List.mem_filter.mp hf).1⟩
    · cases taken
  | endTask task =>
    simp only [WorkflowApplication.step] at taken
    split at taken
    · cases taken
    · cases taken
      exact ⟨hready, List.Subset.refl _⟩
  | aclose task =>
    simp only [WorkflowApplication.step] at taken
    split at taken
    · cases taken
    · cases taken
      exact ⟨(hclose s _).1, fun _ hf => (hclose s _).2 ▸ hf⟩
  | wake name =>
    simp only [WorkflowApplication.step] at taken
    split at taken
    · cases taken
      simp only [WorkflowApplication.afterWait]
      split <;> exact ⟨hready, List.Subset.refl _⟩
    · cases taken
  | drain =>
    cases taken
    exact ⟨hready, List.Subset.refl _⟩
  | drainCloses name =>
    simp only [WorkflowApplication.step] at taken
    split at taken
    · split at taken
      · cases taken
        refine ⟨(hclose _ _).1, fun flight hf => ?_⟩
        rw [(hclose _ _).2] at hf
        exact hf
      · cases taken
    · cases taken
  | abort name | cancelDrain name =>
    simp only [WorkflowApplication.step] at taken
    split at taken
    · cases taken
      exact ⟨hready, List.Subset.refl _⟩
    · cases taken
  | drainReturns name =>
    simp only [WorkflowApplication.step] at taken
    split at taken
    · split at taken
      · cases taken
        exact ⟨hready, List.Subset.refl _⟩
      · cases taken
    · cases taken

/-- After a close no call comes into flight. -/
theorem flights_run (hready : s.ready = false) (events : List ShutdownEvent)
    {last : WorkflowApplication} (ran : machine.run s events = some last) :
    last.flights ⊆ s.flights := by
  have hlast : last.ready = false ∧ last.flights ⊆ s.flights := by
    refine Machine.run_invariant (P := fun state => state.ready = false ∧ state.flights ⊆ s.flights)
      ?_ ⟨hready, List.Subset.refl _⟩ events ran
    rintro state event next ⟨hr, hsub⟩ taken
    obtain ⟨hnext, hf⟩ := flights_step hr taken
    exact ⟨hnext, List.Subset.trans hf hsub⟩
  exact hlast.2

/-! ## Exact shutdown -/

/-- The application tracks its invocations exactly: the table counts them, none starts after a close
began, a close cancels only tasks with one in flight, succeeds only when none of another task is in
flight and fails only when one still is, and a drain returns only when none is in flight. -/
structure Exact (s : WorkflowApplication) : Prop where
  counts : ∀ task, s.count task = s.inFlight task
  stopped : s.ready = false → ∀ events last, machine.run s events = some last →
    last.flights ⊆ s.flights
  cancelled : ∀ cancellation ∈ s.cancelled, 0 < cancellation.inFlight
  succeeded : ∀ closed ∈ s.closed, closed.result = true → closed.others = 0
  failed : ∀ closed ∈ s.closed, closed.result = false → 0 < closed.others
  drained : ∀ left ∈ s.drained, left = 0

/-- No host task outlives its invocations into the end of a wait: when the first wait ends, a task
that is not done has an invocation in flight, and when the second one ends with a task that is not
done, some other task has. -/
def TasksEndWithCalls (s : WorkflowApplication) : ShutdownEvent → Prop
  | .wake name => ∀ close, s.closes.lookup name = some close →
      if close.second then
        (∃ task ∈ close.waited, task ∉ s.done) → 0 < s.others close.closer
      else ∀ task ∈ close.waited, task ∉ s.done → 0 < s.inFlight task
  | _ => True

/-- The records a close adds to are the only ones that can be inexact. -/
def Recorded (s : WorkflowApplication) : Prop :=
  (∀ cancellation ∈ s.cancelled, 0 < cancellation.inFlight) ∧
    ∀ closed ∈ s.closed, closed.result = false → 0 < closed.others

/-- A close that returns. -/
theorem recorded_closeReturns {closer : Closer} {result : Bool} :
    Recorded (s.closeReturns closer result) ↔
      Recorded s ∧ (result = false → 0 < s.others closer) := by
  show (_ ∧ ∀ closed ∈ _ :: s.closed, _) ↔ _
  rw [List.forall_mem_cons, and_comm (a := result = false → _), ← and_assoc]
  rfl

/-- The end of a wait adds exact records exactly when no task outlives its invocations. -/
theorem recorded_afterWait {close : Close} (found : s.closes.lookup name = some close) :
    Recorded (s.afterWait name close) ↔ Recorded s ∧ s.TasksEndWithCalls (.wake name) := by
  have hcondition : s.TasksEndWithCalls (.wake name) ↔
      if close.second then (∃ task ∈ close.waited, task ∉ s.done) → 0 < s.others close.closer
      else ∀ task ∈ close.waited, task ∉ s.done → 0 < s.inFlight task := by
    simp only [TasksEndWithCalls, found, Option.some.injEq, forall_eq']
  have hnil : close.waited.filter (· ∉ s.done) = [] ↔ ∀ task ∈ close.waited, task ∈ s.done := by
    simp
  rw [hcondition]
  simp only [WorkflowApplication.afterWait]
  split
  case isTrue hends =>
    rw [recorded_closeReturns]
    refine and_congr_right fun _ => ?_
    rw [decide_eq_false_iff_not, hnil]
    cases hsecond : close.second with
    | true => simp [WorkflowApplication.others]
    | false =>
      have hdone := hnil.mp (hends.resolve_left (by simp [hsecond]))
      simp only [Bool.false_eq_true, if_false]
      constructor
      · intro _ task ht hn
        exact absurd (hdone task ht) hn
      · intro _ hn
        exact absurd hdone hn
  case isFalse hgoes =>
    have hsecond : close.second = false := Bool.eq_false_iff.mpr (not_or.mp hgoes).1
    simp only [hsecond, Bool.false_eq_true, if_false, Recorded, List.forall_mem_append,
      List.forall_mem_map, List.mem_filter, decide_eq_true_eq, and_imp]
    constructor
    · rintro ⟨⟨hnew, hold⟩, hclosed⟩
      exact ⟨⟨hold, hclosed⟩, hnew⟩
    · rintro ⟨⟨hold, hclosed⟩, hnew⟩
      exact ⟨⟨hnew, hold⟩, hclosed⟩

/-- A close that begins. -/
theorem recorded_close (closer : Closer) : Recorded (s.close closer) ↔ Recorded s := by
  simp only [WorkflowApplication.close]
  split
  · rw [recorded_closeReturns]
    exact and_iff_left nofun
  · rfl

/-- What a step adds to the record of closes. -/
theorem recorded_step {event : ShutdownEvent} (taken : s.step event = some next) :
    Recorded next ↔ Recorded s ∧ s.TasksEndWithCalls event := by
  cases event with
  | wake name =>
    simp only [WorkflowApplication.step] at taken
    split at taken
    case h_2 => cases taken
    case h_1 close found =>
      cases taken
      exact recorded_afterWait found
  | aclose task =>
    simp only [WorkflowApplication.step] at taken
    split at taken
    · cases taken
    · cases taken
      rw [recorded_close]
      exact (and_iff_left trivial).symm
  | drainCloses name =>
    simp only [WorkflowApplication.step] at taken
    split at taken
    · split at taken
      · cases taken
        rw [recorded_close]
        exact (and_iff_left trivial).symm
      · cases taken
    · cases taken
  | invoke | leave | endTask | abort | drain | cancelDrain | drainReturns =>
    simp only [WorkflowApplication.step] at taken
    repeat' split at taken
    all_goals cases taken
    all_goals exact (and_iff_left trivial).symm

/-- A run is exact exactly when no host task outlives its invocations into the end of a wait of
`aclose`. -/
theorem exact_iff_tasksEndWithCalls {events : List ShutdownEvent} {last : WorkflowApplication}
    (ran : machine.run machine.start events = some last) :
    Exact last ↔ machine.Meets TasksEndWithCalls machine.start events := by
  have hconsistent := consistent_of_run ran
  have hrecorded : Recorded last ↔
      Recorded new ∧ machine.Meets TasksEndWithCalls machine.start events :=
    Machine.run_iff (P := fun _ => True) (fun _ _ => trivial)
      (fun _ taken => recorded_step taken) trivial events ran
  have hnew : Recorded new := ⟨nofun, nofun⟩
  rw [and_iff_right hnew] at hrecorded
  rw [← hrecorded]
  constructor
  · intro h
    exact ⟨h.cancelled, h.failed⟩
  · rintro ⟨hcancelled, hfailed⟩
    exact ⟨hconsistent.counts, fun hready events last => flights_run hready events, hcancelled,
      hconsistent.succeeded, hfailed, hconsistent.drained⟩

/-- A host task makes one call during which a shutdown begins, and stays alive after the call. -/
def outlived : WorkflowApplication where
  ready := false
  active := []
  flights := []
  done := []
  closes := []
  drains := []
  cancelled := [⟨1, 0⟩]
  closed := [⟨false, 0⟩]
  drained := []
  next := 2

/-- The run reaches a state in which the close has cancelled a task with no invocation in flight, and
has failed with none in flight at all. -/
theorem outlived_not_exact :
    machine.run machine.start [.invoke 1 false, .aclose 2, .leave 0, .wake 1, .wake 1]
        = some outlived ∧ ¬ Exact outlived := by
  refine ⟨by decide, fun h => ?_⟩
  exact absurd (h.cancelled ⟨1, 0⟩ List.mem_cons_self) (Nat.lt_irrefl 0)

/-- A task that ends with its call is waited for and nothing more. -/
theorem ended_exact :
    ∃ last, machine.run machine.start [.invoke 1 false, .aclose 2, .leave 0, .endTask 1, .wake 1]
        = some last ∧ (Exact last ↔ machine.Meets TasksEndWithCalls machine.start
          [.invoke 1 false, .aclose 2, .leave 0, .endTask 1, .wake 1]) :=
  ⟨_, rfl, exact_iff_tasksEndWithCalls rfl⟩

end WorkflowApplication

end Foliqant.Application
