import Foliqant.Common.Dict
import Foliqant.Common.Machine
import Foliqant.Evaluation.Attempts
import Mathlib.Data.List.Range

/-!
# The workers of an evaluation

`evaluate` gives the attempts of a suite to a bounded number of workers, which share one iterator and
one table of finished attempts. A worker suspends after it took an attempt, while the pipeline runs and
while checks are scored; between its suspension points any other worker may go on.

`Schedule.machine` has all interleavings. The report does not depend on them: every attempt is begun
once, and the table is read in the order of the suite. What can go wrong is the comparison of an input
with its record, which freezes both under a bound that accepted envelopes exceed by one level.
-/

namespace Foliqant.Evaluation

open Foliqant.Core JsonText

/-- An attempt with its place in the report. -/
structure Planned where
  index : ℕ
  case : EvaluationCase
  repetition : ℕ

/-- The attempts recorded for an identity; without a checkpoint there are none. -/
def loadRecorded (floats : Floats ℚ) (identity : CheckpointIdentity)
    (checkpoint : Option (List Char)) :
    Except CheckpointError (Saved ℚ) :=
  match checkpoint with
  | none => .ok []
  | some file => load floats identity file

/-- What an evaluation is called with, and the records it loads at its start. -/
structure EvaluationPlan (C M : Type) where
  suite : EvaluationSuite
  repetitions : ℕ
  maxConcurrency : ℕ
  pipeline : Pipeline C M
  identity : CheckpointIdentity
  checkpoint : Option (List Char)
  recorded : Saved ℚ
  repetitions_pos : 1 ≤ repetitions
  maxConcurrency_pos : 1 ≤ maxConcurrency
  maxConcurrency_le : maxConcurrency ≤ 64
  loaded : loadRecorded pipeline.floats identity checkpoint = .ok recorded

namespace EvaluationPlan

variable {C M : Type}

/-- The attempts in the order of the iterator. -/
def planned (e : EvaluationPlan C M) : List Planned :=
  e.suite.cases.zipIdx.flatMap fun (case, index) =>
    (List.range' 1 e.repetitions).map fun repetition =>
      ⟨index * e.repetitions + repetition - 1, case, repetition⟩

/-- The attempts of all cases. -/
def attemptCount (e : EvaluationPlan C M) : ℕ := e.suite.cases.length * e.repetitions

/-- The indices of a case's repetitions. -/
theorem map_index_repetitions (index repetitions : ℕ) :
    (List.range' 1 repetitions).map (fun repetition => index * repetitions + repetition - 1)
      = List.range' (index * repetitions) repetitions := by
  rw [List.range'_eq_map_range, List.map_map, List.range'_eq_map_range]
  refine List.map_congr_left fun offset _ => ?_
  simp only [Function.comp_apply]
  omega

/-- The places of the attempts are the positions in the order of the iterator. -/
theorem planned_index (e : EvaluationPlan C M) :
    e.planned.map Planned.index = List.range e.attemptCount := by
  have hcases : ∀ (cases : List EvaluationCase) (first : ℕ),
      ((cases.zipIdx first).flatMap fun (case, index) =>
        (List.range' 1 e.repetitions).map fun repetition =>
          (⟨index * e.repetitions + repetition - 1, case, repetition⟩ : Planned)).map Planned.index
        = List.range' (first * e.repetitions) (cases.length * e.repetitions) := by
    intro cases
    induction cases with
    | nil =>
      intro first
      simp
    | cons case cases ih =>
      intro first
      have hhead : (List.range' 1 e.repetitions).map (Planned.index ∘ fun repetition =>
          (⟨first * e.repetitions + repetition - 1, case, repetition⟩ : Planned))
            = List.range' (first * e.repetitions) e.repetitions :=
        map_index_repetitions first e.repetitions
      rw [List.zipIdx_cons, List.flatMap_cons, List.map_append, ih, List.map_map, hhead,
        List.length_cons, Nat.succ_mul, Nat.succ_mul, Nat.add_comm (cases.length * e.repetitions),
        List.range'_append_1]
  have hall := hcases e.suite.cases 0
  rw [Nat.zero_mul, ← List.range_eq_range'] at hall
  exact hall

/-- As many attempts are planned as there are. -/
theorem planned_length (e : EvaluationPlan C M) : e.planned.length = e.attemptCount := by
  have := congrArg List.length e.planned_index
  simpa using this

/-- Attempts are planned in the order of their indices. -/
theorem index_of_planned {e : EvaluationPlan C M} {place : ℕ} {attempt : Planned}
    (h : e.planned[place]? = some attempt) : attempt.index = place := by
  have hindex := congrArg (·[place]?) e.planned_index
  simp only [List.getElem?_map, h, Option.map_some] at hindex
  have hlt : place < e.attemptCount := by
    rw [← planned_length]
    exact (List.getElem?_eq_some_iff.mp h).1
  rw [List.getElem?_range hlt] at hindex
  exact Option.some.inj hindex

/-- The recorded attempt of a planned one. -/
def saved (e : EvaluationPlan C M) (attempt : Planned) : Except Exn (Option (SavedAttempt ℚ)) :=
  savedAttempt e.pipeline e.recorded attempt.case attempt.repetition

/-- The record an attempt is resumed from. -/
def resumedFrom (e : EvaluationPlan C M) (attempt : Planned) : Option (SavedAttempt ℚ) :=
  match e.saved attempt with
  | .ok saved => saved
  | .error _ => none

end EvaluationPlan

/-- Where a worker is. An attempt in hand comes with its record once the two were compared. -/
inductive WorkerPhase where
  /-- About to take the next attempt. -/
  | idle
  /-- Suspended after taking an attempt. -/
  | taken (attempt : Planned)
  /-- The pipeline runs, or the recorded result is read. -/
  | running (attempt : Planned) (saved : Option (SavedAttempt ℚ))
  /-- The result is there and in the journal; its checks are scored. -/
  | scoring (attempt : Planned) (saved : Option (SavedAttempt ℚ))
  | finished
  /-- The comparison with the record raised. -/
  | incomparable (attempt : Planned)
  /-- A cancellation, or an exception of the journal or of the progress callback; the attempt in hand
  and whether it was begun. -/
  | raised (attempt : Option Planned) (begun cancelled : Bool)

/-- The attempt a worker has in hand. -/
def WorkerPhase.attempt : WorkerPhase → Option Planned
  | .idle | .finished => none
  | .taken attempt | .running attempt _ | .scoring attempt _ | .incomparable attempt => some attempt
  | .raised attempt _ _ => attempt

/-- Whether the attempt in hand was begun. -/
def WorkerPhase.begun : WorkerPhase → Bool
  | .running _ _ | .scoring _ _ => true
  | .raised _ begun _ => begun
  | .idle | .finished | .taken _ | .incomparable _ => false

/-- Whether the worker goes on. -/
def WorkerPhase.live : WorkerPhase → Bool
  | .idle | .taken _ | .running _ _ | .scoring _ _ => true
  | .finished | .incomparable _ | .raised _ _ _ => false

/-- The worker ended without an exception; the task group takes a cancelled worker for one. -/
def WorkerPhase.ended : WorkerPhase → Bool
  | .finished => true
  | .raised _ _ cancelled => cancelled
  | .idle | .taken _ | .running _ _ | .scoring _ _ | .incomparable _ => false

/-- A worker that has ended works no more. -/
theorem WorkerPhase.not_live_of_ended {phase : WorkerPhase} (h : phase.ended = true) :
    phase.live = false := by
  cases phase with
  | finished => rfl
  | raised => rfl
  | _ => cases h

/-- One call of `EvaluationCheckpoint.record`. -/
structure Recorded where
  case : EvaluationCase
  repetition : ℕ
  status : AttemptStatus
  result : Object
  /-- The attempt had been reused from the checkpoint. -/
  resumed : Bool

/-- The report of an evaluation. -/
structure EvaluationReport (C M : Type) where
  cases : List (CaseReport C)
  failureRate : ℚ
  reviewRate : ℚ
  resumedAttempts : ℕ
  summary : M

/-- The state of an evaluation with its workers. -/
structure Schedule (C M : Type) where
  next : ℕ
  workers : List (ℕ × WorkerPhase)
  completed : List (ℕ × CaseReport C)
  resumed : ℕ
  failed : ℕ
  /-- The attempts begun so far, with the record each was resumed from. -/
  begun : List (Planned × Option (SavedAttempt ℚ))
  /-- The attempts scored so far. -/
  scored : List Planned
  journal : List Recorded
  report : Option (EvaluationReport C M)

/-- What a worker does next. -/
inductive ScheduleEvent where
  /-- A worker takes the next attempt, or finishes. -/
  | take (worker : ℕ)
  /-- A worker goes on with the attempt it took. -/
  | begin (worker : ℕ)
  /-- The pipeline has returned. -/
  | return (worker : ℕ)
  /-- The attempt is scored. -/
  | score (worker : ℕ)
  /-- A worker is cancelled or hit by an exception. -/
  | abort (worker : ℕ) (cancelled : Bool)
  /-- Every worker has ended. -/
  | report
  deriving DecidableEq, Repr

/-- A cancellation or an exception from outside. -/
def ScheduleEvent.isAbort : ScheduleEvent → Bool
  | .abort _ _ => true
  | _ => false

/-- The status counts as a failed attempt. -/
def AttemptStatus.isFailure (status : AttemptStatus) : Bool :=
  status = .failed || status = .cancelled || status = .error

/-- The report over the attempts in order. -/
def EvaluationReport.make {C M : Type} (pipeline : Pipeline C M) (cases : List (CaseReport C))
    (resumed : ℕ) : EvaluationReport C M where
  cases := cases
  failureRate := cases.countP (·.status.isFailure) / cases.length
  reviewRate := cases.countP (·.status = .needsReview) / cases.length
  resumedAttempts := resumed
  summary := pipeline.summarize (cases.map CaseReport.scored)

namespace Schedule

variable {C M : Type}

/-- An evaluation before its first attempt. -/
def new (e : EvaluationPlan C M) : Schedule C M where
  next := 0
  workers := (List.range (min e.maxConcurrency e.attemptCount)).map fun worker => (worker, .idle)
  completed := []
  resumed := 0
  failed := 0
  begun := []
  scored := []
  journal := []
  report := none

/-- A worker moves on. -/
def setWorker (s : Schedule C M) (worker : ℕ) (phase : WorkerPhase) : Schedule C M :=
  { s with workers := Dict.set worker phase s.workers }

/-- The finished attempts in order; a missing one is a `KeyError`. -/
def collect (e : EvaluationPlan C M) (s : Schedule C M) : Option (List (CaseReport C)) :=
  (List.range e.attemptCount).mapM fun index => s.completed.lookup index

/-- One event of a worker. -/
def step (e : EvaluationPlan C M) (s : Schedule C M) : ScheduleEvent → Option (Schedule C M)
  | .take worker =>
      match s.workers.lookup worker with
      | some .idle =>
          match e.planned[s.next]? with
          | some attempt => some { s.setWorker worker (.taken attempt) with next := s.next + 1 }
          | none => some (s.setWorker worker .finished)
      | _ => none
  | .begin worker =>
      match s.workers.lookup worker with
      | some (.taken attempt) =>
          match e.saved attempt with
          | .error _ => some (s.setWorker worker (.incomparable attempt))
          | .ok saved =>
              some { s.setWorker worker (.running attempt saved) with
                begun := (attempt, saved) :: s.begun }
      | _ => none
  | .return worker =>
      match s.workers.lookup worker with
      | some (.running attempt saved) =>
          let entries :=
            match journaled e.pipeline attempt.case attempt.repetition saved with
            | some (result, status) =>
                [⟨attempt.case, attempt.repetition, status, result, saved.isSome⟩]
            | none => []
          some { s.setWorker worker (.scoring attempt saved) with
            journal := if e.checkpoint.isSome then s.journal ++ entries else s.journal }
      | _ => none
  | .score worker =>
      match s.workers.lookup worker with
      | some (.scoring attempt saved) =>
          let report := caseReport e.pipeline attempt.case attempt.repetition saved
          some { s.setWorker worker .idle with
            completed := Dict.set attempt.index report s.completed
            resumed := s.resumed + if saved.isSome then 1 else 0
            failed := s.failed + if report.status.isFailure then 1 else 0
            scored := s.scored ++ [attempt] }
      | _ => none
  | .abort worker cancelled =>
      match s.workers.lookup worker with
      | some phase =>
          if phase.live then
            some (s.setWorker worker (.raised phase.attempt phase.begun cancelled))
          else none
      | none => none
  | .report =>
      if s.report.isSome ∨ ¬ s.workers.all (·.2.ended) then none
      else if s.completed.length ≠ e.attemptCount then none
      else
        match s.collect e with
        | some cases => some { s with report := some (.make e.pipeline cases s.resumed) }
        | none => none

/-- All runs of an evaluation. -/
def machine (e : EvaluationPlan C M) : Machine (Schedule C M) ScheduleEvent where
  start := new e
  step := step e

/-! ## Steps -/

/-- What a step can do. -/
inductive Stepped (e : EvaluationPlan C M) (s : Schedule C M) :
    ScheduleEvent → Schedule C M → Prop
  | took {worker attempt} (found : s.workers.lookup worker = some .idle)
      (planned : e.planned[s.next]? = some attempt) :
      Stepped e s (.take worker) { s.setWorker worker (.taken attempt) with next := s.next + 1 }
  | finished {worker} (found : s.workers.lookup worker = some .idle)
      (exhausted : e.planned[s.next]? = none) :
      Stepped e s (.take worker) (s.setWorker worker .finished)
  | incomparable {worker attempt error} (found : s.workers.lookup worker = some (.taken attempt))
      (raised : e.saved attempt = .error error) :
      Stepped e s (.begin worker) (s.setWorker worker (.incomparable attempt))
  | began {worker attempt saved} (found : s.workers.lookup worker = some (.taken attempt))
      (compared : e.saved attempt = .ok saved) :
      Stepped e s (.begin worker)
        { s.setWorker worker (.running attempt saved) with begun := (attempt, saved) :: s.begun }
  | returned {worker attempt saved journal}
      (found : s.workers.lookup worker = some (.running attempt saved))
      (appended : ∀ entry ∈ journal, entry ∈ s.journal ∨
        entry.status ∈ EXECUTED_STATUSES ∧ entry.resumed = false) :
      Stepped e s (.return worker) { s.setWorker worker (.scoring attempt saved) with journal }
  | scored {worker attempt saved report}
      (found : s.workers.lookup worker = some (.scoring attempt saved))
      (report_eq : report = caseReport e.pipeline attempt.case attempt.repetition saved) :
      Stepped e s (.score worker)
        { s.setWorker worker .idle with
          completed := Dict.set attempt.index report s.completed
          resumed := s.resumed + if saved.isSome then 1 else 0
          failed := s.failed + if report.status.isFailure then 1 else 0
          scored := s.scored ++ [attempt] }
  | aborted {worker phase cancelled} (found : s.workers.lookup worker = some phase)
      (live : phase.live = true) :
      Stepped e s (.abort worker cancelled)
        (s.setWorker worker (.raised phase.attempt phase.begun cancelled))
  | reported {cases} (first : s.report = none)
      (ended : ∀ worker ∈ s.workers, worker.2.ended = true)
      (full : s.completed.length = e.attemptCount)
      (collected : s.collect e = some cases) :
      Stepped e s .report { s with report := some (.make e.pipeline cases s.resumed) }

/-- What is journaled of an attempt. -/
theorem journaled_spec {pipeline : Pipeline C M} {case : EvaluationCase} {repetition : ℕ}
    {saved : Option (SavedAttempt ℚ)} {result : Object} {status : AttemptStatus}
    (h : journaled pipeline case repetition saved = some (result, status)) :
    status ∈ EXECUTED_STATUSES ∧ saved.isSome = false := by
  unfold journaled at h
  split at h
  · cases h
  · split at h
    case isTrue hexecuted =>
      cases h
      exact ⟨hexecuted.2, by simpa using hexecuted.1⟩
    case isFalse => cases h

/-- Every event does one of the listed things. -/
theorem stepped {e : EvaluationPlan C M} {s next : Schedule C M} {event : ScheduleEvent}
    (taken : s.step e event = some next) : Stepped e s event next := by
  cases event with
  | take worker =>
    simp only [step] at taken
    split at taken
    case h_2 => cases taken
    case h_1 found =>
      split at taken
      case h_1 attempt planned =>
        cases taken
        exact .took found planned
      case h_2 exhausted =>
        cases taken
        exact .finished found exhausted
  | begin worker =>
    simp only [step] at taken
    split at taken
    case h_2 => cases taken
    case h_1 attempt found =>
      split at taken
      case h_1 error raised =>
        cases taken
        exact .incomparable found raised
      case h_2 saved compared =>
        cases taken
        exact .began found compared
  | «return» worker =>
    simp only [step] at taken
    split at taken
    case h_2 => cases taken
    case h_1 attempt saved found =>
      cases taken
      refine .returned found ?_
      -- a journaled entry is an old one, or the one this attempt appended
      intro entry hentry
      split at hentry
      case isFalse => exact .inl hentry
      case isTrue =>
        rcases List.mem_append.mp hentry with hentry | hentry
        · exact .inl hentry
        · split at hentry
          case h_1 result status hj =>
            rw [List.mem_singleton.mp hentry]
            exact .inr (journaled_spec hj)
          case h_2 => cases hentry
  | score worker =>
    simp only [step] at taken
    split at taken
    case h_2 => cases taken
    case h_1 attempt saved found =>
      cases taken
      exact .scored found rfl
  | abort worker cancelled =>
    simp only [step] at taken
    split at taken
    case h_2 => cases taken
    case h_1 phase found =>
      split at taken
      case isTrue live =>
        cases taken
        exact .aborted found live
      case isFalse => cases taken
  | report =>
    simp only [step] at taken
    split at taken
    case isTrue => cases taken
    case isFalse hopen =>
      split at taken
      case isTrue => cases taken
      case isFalse full =>
        split at taken
        case h_2 => cases taken
        case h_1 cases collected =>
          -- no report while a worker runs, after a failure, or twice
          rw [not_or, not_not] at hopen
          obtain ⟨hfirst, hended⟩ := hopen
          cases taken
          refine .reported (by simpa using hfirst) ?_ (not_not.mp full) collected
          intro worker hw
          exact List.all_eq_true.mp hended worker hw

end Schedule

end Foliqant.Evaluation
