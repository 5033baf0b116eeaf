import Foliqant.Evaluation.Journal
import Foliqant.Evaluation.Schedule
import Mathlib.Algebra.BigOperators.Group.List.Basic

/-!
# Runs of an evaluation

`Sound` is what every interleaving keeps: an attempt that was taken is finished or in the hands of one
worker. From it the report is the same for all of them, and an evaluation that nothing disturbs ends
with it unless an input cannot be compared with its record.
-/

namespace Foliqant.Evaluation

open Foliqant.Core JsonText

/-- The worker has the attempt of a place in hand. -/
def WorkerPhase.holds (place : ℕ) (phase : WorkerPhase) : Bool :=
  phase.attempt.map Planned.index = some place

/-- The worker has begun the attempt of a place. -/
def WorkerPhase.hasBegun (place : ℕ) (phase : WorkerPhase) : Bool := phase.begun && phase.holds place

/-- How many steps a worker may still take with what it has in hand, and one to finish. -/
def WorkerPhase.steps : WorkerPhase → ℕ
  | .idle => 1
  | .taken _ => 4
  | .running _ _ => 3
  | .scoring _ _ => 2
  | .finished | .incomparable _ | .raised _ _ _ => 0

namespace WorkerPhase

variable {place : ℕ} {attempt : Planned} {saved : Option (SavedAttempt ℚ)}

/-- An idle worker holds no attempt. -/
@[simp] theorem holds_idle : idle.holds place = false := rfl

/-- A worker holds the attempt that it took. -/
@[simp] theorem holds_taken : (taken attempt).holds place = decide (attempt.index = place) := by
  simp [holds, WorkerPhase.attempt]

/-- A worker holds the attempt that it runs. -/
@[simp] theorem holds_running :
    (running attempt saved).holds place = decide (attempt.index = place) := by
  simp [holds, WorkerPhase.attempt]

/-- A worker holds the attempt that it scores. -/
@[simp] theorem holds_scoring :
    (scoring attempt saved).holds place = decide (attempt.index = place) := by
  simp [holds, WorkerPhase.attempt]

/-- An idle worker has begun no attempt. -/
@[simp] theorem hasBegun_idle : idle.hasBegun place = false := rfl

/-- An attempt that was only taken has not begun. -/
@[simp] theorem hasBegun_taken : (taken attempt).hasBegun place = false := rfl

/-- A running attempt has begun. -/
@[simp] theorem hasBegun_running :
    (running attempt saved).hasBegun place = decide (attempt.index = place) := holds_running

/-- An attempt that is scored has begun. -/
@[simp] theorem hasBegun_scoring :
    (scoring attempt saved).hasBegun place = decide (attempt.index = place) := holds_scoring

end WorkerPhase

namespace EvaluationPlan

variable {C M : Type}

/-- What a worker knows of its attempt; a worker that finished found the iterator exhausted. -/
def Knows (e : EvaluationPlan C M) (next : ℕ) : WorkerPhase → Prop
  | .idle | .raised _ _ _ => True
  | .taken attempt => e.planned[attempt.index]? = some attempt
  | .running attempt saved | .scoring attempt saved =>
      e.planned[attempt.index]? = some attempt ∧ e.saved attempt = .ok saved
  | .incomparable attempt =>
      e.planned[attempt.index]? = some attempt ∧ ∃ error, e.saved attempt = .error error
  | .finished => e.attemptCount ≤ next

/-- What a worker knows stays so when more attempts are taken. -/
theorem Knows.mono {e : EvaluationPlan C M} {next later : ℕ} {phase : WorkerPhase}
    (h : e.Knows next phase) (hle : next ≤ later) : e.Knows later phase := by
  cases phase with
  | finished => exact Nat.le_trans h hle
  | _ => exact h

/-- The report of an attempt, whatever the schedule. -/
def reportOf (e : EvaluationPlan C M) (attempt : Planned) : CaseReport C :=
  caseReport e.pipeline attempt.case attempt.repetition (e.resumedFrom attempt)

/-- The attempt of a place is resumed. -/
def resumes (e : EvaluationPlan C M) (place : ℕ) : Bool :=
  match e.planned[place]? with
  | some attempt => (e.resumedFrom attempt).isSome
  | none => false

/-- The report of an evaluation: each attempt in order, whatever the schedule. -/
def expected (e : EvaluationPlan C M) : EvaluationReport C M :=
  .make e.pipeline (e.planned.map e.reportOf)
    ((List.range e.attemptCount).countP fun place => e.resumes place)

/-- An attempt is resumed from what was looked up. -/
theorem resumedFrom_of_saved {e : EvaluationPlan C M} {attempt : Planned}
    {saved : Option (SavedAttempt ℚ)} (h : e.saved attempt = .ok saved) :
    e.resumedFrom attempt = saved := by
  unfold resumedFrom
  rw [h]

end EvaluationPlan

namespace Schedule

/-- What holds in every state of an evaluation. -/
structure Sound (e : EvaluationPlan C M) (s : Schedule C M) : Prop where
  workers : Dict.keys s.workers = List.range (min e.maxConcurrency e.attemptCount)
  next_le : s.next ≤ e.attemptCount
  /-- An attempt that was taken is finished or in the hands of one worker. -/
  places : ∀ place, (Dict.keys s.completed).count place
    + s.workers.countP (·.2.holds place) = if place < s.next then 1 else 0
  phases : ∀ worker phase, s.workers.lookup worker = some phase → e.Knows s.next phase
  completed : ∀ place report, (place, report) ∈ s.completed → ∃ attempt,
    e.planned[place]? = some attempt ∧ (∃ saved, e.saved attempt = .ok saved) ∧
      report = e.reportOf attempt
  begun : ∀ place, s.begun.countP (·.1.index = place)
    = (Dict.keys s.completed).count place + s.workers.countP (·.2.hasBegun place)
  compared : ∀ entry ∈ s.begun,
    e.planned[entry.1.index]? = some entry.1 ∧ e.saved entry.1 = .ok entry.2
  journal : ∀ entry ∈ s.journal, entry.status ∈ EXECUTED_STATUSES ∧ entry.resumed = false
  scored : s.scored.map Planned.index = Dict.keys s.completed
  planned : ∀ attempt ∈ s.scored, e.planned[attempt.index]? = some attempt
  resumed : s.resumed = (Dict.keys s.completed).countP fun place => e.resumes place
  report : ∀ report, s.report = some report → report = e.expected ∧
    s.completed.length = e.attemptCount ∧ ∀ worker ∈ s.workers, worker.2.live = false

/-- The start. -/
theorem sound_new (e : EvaluationPlan C M) : Sound e (new e) where
  workers := by
    simp only [new, Dict.keys, List.map_map]
    exact List.map_id _
  next_le := Nat.zero_le _
  places place := by
    simp [new, WorkerPhase.holds, WorkerPhase.attempt, Function.comp_def]
  phases worker phase h := by
    have hm := Dict.mem_of_lookup h
    simp only [new, List.mem_map, Prod.mk.injEq] at hm
    obtain ⟨_, -, -, rfl⟩ := hm
    trivial
  completed _ _ h := by cases h
  begun place := by
    simp [new, WorkerPhase.hasBegun, WorkerPhase.begun, Function.comp_def]
  compared _ h := by cases h
  journal _ h := by cases h
  scored := rfl
  planned _ h := by cases h
  resumed := rfl
  report _ h := by cases h

variable {e : EvaluationPlan C M} {s next : Schedule C M} {worker : ℕ} {phase new : WorkerPhase}

/-- The workers differ. -/
theorem Sound.nodup (h : Sound e s) : (Dict.keys s.workers).Nodup := by
  rw [h.workers]
  exact List.nodup_range

/-- Moving one worker changes a count by that worker only. -/
theorem Sound.countP_move (h : Sound e s) (new : WorkerPhase)
    (found : s.workers.lookup worker = some phase)
    (p : WorkerPhase → Bool) :
    (Dict.set worker new s.workers).countP (fun entry => p entry.2) + (if p phase then 1 else 0)
      = s.workers.countP (fun entry => p entry.2) + if p new then 1 else 0 := by
  have hset := Dict.countP_set (fun entry : ℕ × WorkerPhase => p entry.2) new h.nodup found
  have herase := Dict.countP_erase (fun entry : ℕ × WorkerPhase => p entry.2) h.nodup found
  simp only at hset herase
  omega

/-- A move keeps the workers. -/
theorem Sound.keys_move (h : Sound e s) (found : s.workers.lookup worker = some phase) :
    Dict.keys (Dict.set worker new s.workers) = List.range (min e.maxConcurrency e.attemptCount) :=
  (Dict.keys_set_of_mem (Dict.mem_keys_of_lookup found) new).trans h.workers

/-- A move keeps what the other workers know. -/
theorem Sound.phases_move (h : Sound e s) {later : ℕ} (hle : s.next ≤ later)
    (knows : e.Knows later new) (other : ℕ) (current : WorkerPhase)
    (hc : (Dict.set worker new s.workers).lookup other = some current) : e.Knows later current := by
  by_cases he : other = worker
  · subst he
    obtain rfl := Option.some.inj ((Dict.lookup_set_self _ _ _).symm.trans hc)
    exact knows
  · rw [Dict.lookup_set_of_ne he] at hc
    exact (h.phases other current hc).mono hle

/-- The workers go on only before the report. -/
theorem Sound.unreported (h : Sound e s) (found : s.workers.lookup worker = some phase)
    (live : phase.live = true) : s.report = none := by
  cases hr : s.report with
  | none => rfl
  | some report =>
    have hdead := (h.report report hr).2.2 _ (Dict.mem_of_lookup found)
    exact absurd (live.symm.trans hdead) Bool.false_ne_true.symm

/-- The place in hand is not finished. -/
theorem Sound.notMem_completed (h : Sound e s) (found : s.workers.lookup worker = some phase)
    {place : ℕ} (holds : phase.holds place = true) : place ∉ Dict.keys s.completed := by
  have hone : 0 < s.workers.countP (·.2.holds place) :=
    List.countP_pos_iff.mpr ⟨_, Dict.mem_of_lookup found, holds⟩
  have hplaces := h.places place
  refine List.count_eq_zero.mp ?_
  split at hplaces <;> omega

/-- A worker that keeps its attempt in hand. -/
theorem Sound.setWorker (h : Sound e s) (new : WorkerPhase)
    (found : s.workers.lookup worker = some phase)
    (live : phase.live = true) (same : new.attempt = phase.attempt)
    (begun : new.begun = phase.begun) (knows : e.Knows s.next new) :
    Sound e (s.setWorker worker new) := by
  have hcount : ∀ p : WorkerPhase → Bool, p new = p phase →
      (Dict.set worker new s.workers).countP (fun entry => p entry.2)
        = s.workers.countP fun entry => p entry.2 := by
    intro p hp
    have := h.countP_move new found p
    rw [hp] at this
    omega
  have hholds : ∀ place, new.holds place = phase.holds place := fun place => by
    simp only [WorkerPhase.holds, same]
  have hreport := h.unreported found live
  refine { h with
    workers := h.keys_move found, places := fun place => ?_, phases := ?_, begun := fun place => ?_,
    report := fun report hr => ?_ }
  · show _ + (Dict.set worker new s.workers).countP _ = _
    rw [hcount (·.holds place) (hholds place)]
    exact h.places place
  · exact h.phases_move le_rfl knows
  · show _ = _ + (Dict.set worker new s.workers).countP _
    rw [hcount (·.hasBegun place) (by simp only [WorkerPhase.hasBegun, begun, hholds])]
    exact h.begun place
  · exact absurd (hreport.symm.trans hr) (Option.some_ne_none report).symm

/-- Taking the next attempt. -/
theorem Sound.took {attempt : Planned} (h : Sound e s)
    (found : s.workers.lookup worker = some .idle) (planned : e.planned[s.next]? = some attempt) :
    Sound e { s.setWorker worker (.taken attempt) with next := s.next + 1 } := by
  have hindex := EvaluationPlan.index_of_planned planned
  have hlt : s.next < e.attemptCount := by
    rw [← EvaluationPlan.planned_length]
    exact (List.getElem?_eq_some_iff.mp planned).1
  have hreport := h.unreported found rfl
  refine { h with
    workers := h.keys_move found, next_le := hlt, places := fun place => ?_, phases := ?_,
    begun := fun place => ?_, report := fun report hr => ?_ }
  · have hmove := h.countP_move (.taken attempt) found (·.holds place)
    have hplaces := h.places place
    show (Dict.keys s.completed).count place + (Dict.set worker _ s.workers).countP _
      = if place < s.next + 1 then 1 else 0
    simp only [WorkerPhase.holds_idle, WorkerPhase.holds_taken, hindex, decide_eq_true_eq,
      Bool.false_eq_true, if_false] at hmove
    split_ifs at hmove hplaces ⊢ <;> omega
  · refine h.phases_move (Nat.le_succ _) ?_
    show e.planned[attempt.index]? = some attempt
    rw [hindex]
    exact planned
  · have hmove := h.countP_move (.taken attempt) found (·.hasBegun place)
    show s.begun.countP _
      = (Dict.keys s.completed).count place + (Dict.set worker _ s.workers).countP _
    rw [h.begun place]
    simp only [WorkerPhase.hasBegun_idle, WorkerPhase.hasBegun_taken, Bool.false_eq_true,
      if_false] at hmove
    omega
  · exact absurd (hreport.symm.trans hr) (Option.some_ne_none report).symm

/-- Beginning the taken attempt. -/
theorem Sound.began {attempt : Planned} {saved : Option (SavedAttempt ℚ)} (h : Sound e s)
    (found : s.workers.lookup worker = some (.taken attempt))
    (compared : e.saved attempt = .ok saved) :
    Sound e { s.setWorker worker (.running attempt saved) with
      begun := (attempt, saved) :: s.begun } := by
  have hplanned : e.planned[attempt.index]? = some attempt := h.phases _ _ found
  have hreport := h.unreported found rfl
  refine { h with
    workers := h.keys_move found, places := fun place => ?_, phases := ?_,
    begun := fun place => ?_, compared := ?_, report := fun report hr => ?_ }
  · have hmove := h.countP_move (.running attempt saved) found (·.holds place)
    show (Dict.keys s.completed).count place + (Dict.set worker _ s.workers).countP _ = _
    rw [WorkerPhase.holds_taken, WorkerPhase.holds_running] at hmove
    rw [Nat.add_right_cancel hmove]
    exact h.places place
  · exact h.phases_move le_rfl ⟨hplanned, compared⟩
  · have hmove := h.countP_move (.running attempt saved) found (·.hasBegun place)
    show ((attempt, saved) :: s.begun).countP _
      = (Dict.keys s.completed).count place + (Dict.set worker _ s.workers).countP _
    rw [List.countP_cons, h.begun place]
    simp only [WorkerPhase.hasBegun_taken, WorkerPhase.hasBegun_running, Bool.false_eq_true,
      if_false] at hmove ⊢
    omega
  · intro entry hentry
    rcases List.mem_cons.mp hentry with rfl | hentry
    · exact ⟨hplanned, compared⟩
    · exact h.compared entry hentry
  · exact absurd (hreport.symm.trans hr) (Option.some_ne_none report).symm

/-- Reporting the scored attempt. -/
theorem Sound.scored_step {attempt : Planned} {saved : Option (SavedAttempt ℚ)}
    {report : CaseReport C} {failed : ℕ} (h : Sound e s)
    (found : s.workers.lookup worker = some (.scoring attempt saved))
    (report_eq : report = caseReport e.pipeline attempt.case attempt.repetition saved) :
    Sound e { s.setWorker worker .idle with
      completed := Dict.set attempt.index report s.completed
      resumed := s.resumed + if saved.isSome then 1 else 0
      failed := failed
      scored := s.scored ++ [attempt] } := by
  obtain ⟨hplanned, hsaved⟩ :
      e.planned[attempt.index]? = some attempt ∧ e.saved attempt = .ok saved :=
    h.phases _ _ found
  -- the worker held the place until now, so no report of it exists
  have hnew : attempt.index ∉ Dict.keys s.completed :=
    h.notMem_completed found (by simp)
  have hset : Dict.set attempt.index report s.completed
      = s.completed ++ [(attempt.index, report)] := Dict.set_of_notMem hnew report
  have hkeys : Dict.keys (Dict.set attempt.index report s.completed)
      = Dict.keys s.completed ++ [attempt.index] := by
    rw [hset]
    exact List.map_append
  have hcount : ∀ place, (Dict.keys (Dict.set attempt.index report s.completed)).count place
      = (Dict.keys s.completed).count place + if attempt.index = place then 1 else 0 := by
    intro place
    rw [hkeys, List.count_append, List.count_singleton]
    simp only [beq_iff_eq]
  have hreport := h.unreported found rfl
  refine { h with
    workers := h.keys_move found, places := fun place => ?_, phases := ?_, completed := ?_,
    begun := fun place => ?_, scored := ?_, planned := ?_, resumed := ?_,
    report := fun report hr => ?_ }
  -- the place moves from the worker to the reports, and is held once as before
  · have hmove := h.countP_move .idle found (·.holds place)
    show (Dict.keys (Dict.set _ _ s.completed)).count place
      + (Dict.set worker _ s.workers).countP _ = if place < s.next then 1 else 0
    rw [hcount, ← h.places place]
    simp only [WorkerPhase.holds_idle, WorkerPhase.holds_scoring, decide_eq_true_eq,
      Bool.false_eq_true, if_false] at hmove
    omega
  · exact h.phases_move le_rfl trivial
  · intro place other hmem
    rcases Dict.mem_set hmem with heq | hmem
    · cases heq
      refine ⟨attempt, hplanned, ⟨saved, hsaved⟩, ?_⟩
      rw [report_eq, EvaluationPlan.reportOf, EvaluationPlan.resumedFrom_of_saved hsaved]
    · exact h.completed place other hmem
  · have hmove := h.countP_move .idle found (·.hasBegun place)
    show s.begun.countP _ = (Dict.keys (Dict.set _ _ s.completed)).count place
      + (Dict.set worker _ s.workers).countP _
    rw [hcount, h.begun place]
    simp only [WorkerPhase.hasBegun_idle, WorkerPhase.hasBegun_scoring, decide_eq_true_eq,
      Bool.false_eq_true, if_false] at hmove
    omega
  · show (s.scored ++ [attempt]).map Planned.index = Dict.keys (Dict.set _ _ s.completed)
    rw [hkeys, List.map_append, h.scored]
    rfl
  · intro other hmem
    rcases List.mem_append.mp hmem with hmem | hmem
    · exact h.planned other hmem
    · rw [List.mem_singleton.mp hmem]
      exact hplanned
  · have hresumes : e.resumes attempt.index = saved.isSome := by
      simp only [EvaluationPlan.resumes, hplanned, EvaluationPlan.resumedFrom_of_saved hsaved]
    show s.resumed + _ = (Dict.keys (Dict.set _ _ s.completed)).countP _
    rw [hkeys, List.countP_append, List.countP_singleton, hresumes, h.resumed]
  · exact absurd (hreport.symm.trans hr) (Option.some_ne_none report).symm

/-! ## The report -/

/-- There is an attempt. -/
theorem EvaluationPlan.attemptCount_pos (e : EvaluationPlan C M) : 0 < e.attemptCount :=
  Nat.mul_pos (List.length_pos_of_ne_nil e.suite.nonempty) e.repetitions_pos

/-- When all workers finished, every attempt was taken. -/
theorem Sound.exhausted (h : Sound e s) (finished : ∀ worker ∈ s.workers, worker.2 = .finished) :
    s.next = e.attemptCount := by
  have hpos : 0 < min e.maxConcurrency e.attemptCount :=
    Nat.lt_min.mpr ⟨e.maxConcurrency_pos, EvaluationPlan.attemptCount_pos e⟩
  have hmem : 0 ∈ Dict.keys s.workers := by
    rw [h.workers]
    exact List.mem_range.mpr hpos
  obtain ⟨phase, hphase⟩ := Dict.lookup_isSome hmem
  have hfinished : phase = .finished := finished _ (Dict.mem_of_lookup hphase)
  have hknows := h.phases 0 phase hphase
  rw [hfinished] at hknows
  exact le_antisymm h.next_le hknows

/-- When all workers finished, every attempt is. -/
theorem Sound.full_of_finished (h : Sound e s)
    (finished : ∀ worker ∈ s.workers, worker.2 = .finished) :
    s.completed.length = e.attemptCount := by
  have hperm : (Dict.keys s.completed).Perm (List.range e.attemptCount) := by
    rw [List.perm_iff_count]
    intro place
    have hplaces := h.places place
    have hnone : s.workers.countP (·.2.holds place) = 0 := by
      rw [List.countP_eq_zero]
      intro entry hentry
      rw [finished entry hentry]
      exact Bool.false_ne_true
    rw [hnone, h.exhausted finished, Nat.add_zero] at hplaces
    rw [hplaces, List.count_range]
  simpa [Dict.keys] using hperm.length_eq

/-- No attempt is completed twice. -/
theorem Sound.count_le (h : Sound e s) (place : ℕ) : (Dict.keys s.completed).count place ≤ 1 := by
  have hplaces := h.places place
  split_ifs at hplaces <;> omega

/-- A full table has every place once. -/
theorem Sound.completed_perm (h : Sound e s) (full : s.completed.length = e.attemptCount) :
    (Dict.keys s.completed).Perm (List.range e.attemptCount) := by
  have hnodup : (Dict.keys s.completed).Nodup := List.nodup_iff_count_le_one.mpr h.count_le
  have hsub : Dict.keys s.completed ⊆ List.range e.attemptCount := by
    intro place hplace
    obtain ⟨report, hlookup⟩ := Dict.lookup_isSome hplace
    obtain ⟨attempt, hplanned, -⟩ := h.completed place report (Dict.mem_of_lookup hlookup)
    rw [List.mem_range, ← EvaluationPlan.planned_length]
    exact (List.getElem?_eq_some_iff.mp hplanned).1
  refine (List.subperm_of_subset hnodup hsub).perm_of_length_le ?_
  rw [List.length_range, Dict.keys, List.length_map, full]

/-- Choices that all succeed. -/
theorem mapM_some {α β : Type} {f : α → Option β} {g : α → β} {items : List α}
    (h : ∀ item ∈ items, f item = some (g item)) : items.mapM f = some (items.map g) := by
  induction items with
  | nil => rfl
  | cons item items ih =>
    rw [List.mapM_cons, h item List.mem_cons_self,
      ih fun other hother => h other (List.mem_cons_of_mem _ hother)]
    rfl

/-- The table of finished attempts, read in order, is the report of each attempt. -/
theorem Sound.collected (h : Sound e s) (full : s.completed.length = e.attemptCount) :
    s.collect e = some (e.planned.map e.reportOf) := by
  have hlookup : ∀ attempt ∈ e.planned,
      s.completed.lookup attempt.index = some (e.reportOf attempt) := by
    intro attempt hattempt
    obtain ⟨place, hplace⟩ := List.mem_iff_getElem?.mp hattempt
    have hindex := EvaluationPlan.index_of_planned hplace
    have hlt : place < e.attemptCount := by
      rw [← EvaluationPlan.planned_length]
      exact (List.getElem?_eq_some_iff.mp hplace).1
    have hmem : place ∈ Dict.keys s.completed :=
      (h.completed_perm full).mem_iff.mpr (List.mem_range.mpr hlt)
    obtain ⟨report, hreport⟩ := Dict.lookup_isSome hmem
    obtain ⟨other, hother, -, rfl⟩ := h.completed place report (Dict.mem_of_lookup hreport)
    obtain rfl := Option.some.inj (hplace.symm.trans hother)
    rw [hindex]
    exact hreport
  unfold collect
  rw [← EvaluationPlan.planned_index, List.mapM_map]
  exact mapM_some hlookup

/-- The report of a complete evaluation is the expected one. -/
theorem Sound.make_eq (h : Sound e s) (full : s.completed.length = e.attemptCount) :
    EvaluationReport.make e.pipeline (e.planned.map e.reportOf) s.resumed = e.expected := by
  have hresumed : s.resumed = (List.range e.attemptCount).countP fun place => e.resumes place := by
    rw [h.resumed]
    exact (h.completed_perm full).countP_eq _
  rw [hresumed]
  rfl

/-- Every step keeps the invariant. -/
theorem Sound.step {event : ScheduleEvent} (h : Sound e s)
    (taken : s.step e event = some next) : Sound e next := by
  cases stepped taken with
  | took found planned => exact h.took found planned
  | finished found exhausted =>
    refine h.setWorker _ found rfl rfl rfl ?_
    rw [List.getElem?_eq_none_iff, EvaluationPlan.planned_length] at exhausted
    exact exhausted
  | incomparable found raised =>
    exact h.setWorker _ found rfl rfl rfl ⟨h.phases _ _ found, _, raised⟩
  | began found compared => exact h.began found compared
  | @returned worker attempt saved journal found appended =>
    have hmoved := h.setWorker (.scoring attempt saved) found rfl rfl rfl
      (h.phases worker (.running attempt saved) found)
    refine { hmoved with journal := ?_ }
    intro entry hentry
    rcases appended entry hentry with hentry | hentry
    · exact h.journal entry hentry
    · exact hentry
  | scored found report_eq => exact h.scored_step found report_eq
  | aborted found live => exact h.setWorker _ found live rfl rfl trivial
  | reported first ended full collected =>
    obtain rfl := Option.some.inj (collected.symm.trans (h.collected full))
    refine { h with report := ?_ }
    intro report hr
    cases hr
    exact ⟨h.make_eq full, full, fun worker hw => WorkerPhase.not_live_of_ended (ended worker hw)⟩

/-- A bound for the steps that are left. -/
def left (e : EvaluationPlan C M) (s : Schedule C M) : ℕ :=
  4 * (e.attemptCount - s.next) + (s.workers.map fun entry => entry.2.steps).sum
    + s.report.elim 1 fun _ => 0

/-- What is left to do, after a worker moved on. -/
theorem Sound.left_move (h : Sound e s) (new : WorkerPhase)
    (found : s.workers.lookup worker = some phase) :
    (s.setWorker worker new).left e + phase.steps = s.left e + new.steps := by
  have hset := ((Dict.perm_set new h.nodup found).map fun entry => entry.2.steps).sum_eq
  have herase := ((Dict.perm_erase h.nodup found).map fun entry => entry.2.steps).sum_eq
  rw [List.map_cons, List.sum_cons] at hset herase
  simp only [left, Schedule.setWorker] at hset herase ⊢
  omega

/-- Every step leaves fewer steps. -/
theorem Sound.left_lt {event : ScheduleEvent} (h : Sound e s)
    (taken : s.step e event = some next) : next.left e < s.left e := by
  have hmove : ∀ {worker : ℕ} {phase : WorkerPhase} (new : WorkerPhase),
      s.workers.lookup worker = some phase → new.steps < phase.steps →
      (s.setWorker worker new).left e < s.left e := by
    intro worker phase new found hlt
    have := h.left_move new found
    omega
  cases stepped taken with
  | @took worker attempt found planned =>
    have hlt : s.next < e.attemptCount := by
      rw [← EvaluationPlan.planned_length]
      exact (List.getElem?_eq_some_iff.mp planned).1
    have := h.left_move (.taken attempt) found
    simp only [left, Schedule.setWorker, WorkerPhase.steps] at this ⊢
    omega
  | finished found _ => exact hmove .finished found Nat.zero_lt_one
  | @incomparable worker attempt _ found _ =>
    exact hmove (.incomparable attempt) found (Nat.succ_pos 3)
  | @began worker attempt saved found _ =>
    exact hmove (.running attempt saved) found (Nat.lt_succ_self 3)
  | @returned worker attempt saved _ found _ =>
    exact hmove (.scoring attempt saved) found (Nat.lt_succ_self 2)
  | scored found _ => exact hmove .idle found (Nat.lt_succ_self 1)
  | @aborted worker phase cancelled found live =>
    refine hmove (.raised phase.attempt phase.begun cancelled) found ?_
    cases phase with
    | finished => cases live
    | incomparable => cases live
    | raised => cases live
    | _ => exact Nat.succ_pos _
  | reported first _ _ _ =>
    simp only [left, first, Option.elim]
    omega

/-- An evaluation takes a bounded number of steps. -/
theorem Sound.length_le {events : List ScheduleEvent} {last : Schedule C M} (h : Sound e s)
    (ran : (machine e).run s events = some last) : events.length + last.left e ≤ s.left e := by
  induction events generalizing s with
  | nil =>
    cases ran
    exact (Nat.zero_add _).le
  | cons event events ih =>
    unfold Machine.run at ran
    cases taken : (machine e).step s event with
    | none =>
      rw [taken] at ran
      cases ran
    | some next =>
      rw [taken] at ran
      have hrest := ih (h.step taken) ran
      have hone := h.left_lt taken
      rw [List.length_cons]
      omega

/-- A worker stands at an incomparable input. -/
def Stuck (s : Schedule C M) : Prop :=
  ∃ worker attempt, s.workers.lookup worker = some (.incomparable attempt)

/-- No worker was cancelled or hit by an exception from outside. -/
def Undisturbed (s : Schedule C M) : Prop :=
  ∀ worker attempt begun cancelled,
    s.workers.lookup worker ≠ some (.raised attempt begun cancelled)

/-- A step that is no abort. -/
theorem Undisturbed.step {event : ScheduleEvent} (h : s.Undisturbed)
    (quiet : event.isAbort = false) (taken : s.step e event = some next) : next.Undisturbed := by
  have hmove : ∀ {worker : ℕ} {new : WorkerPhase},
      (∀ attempt begun cancelled, new ≠ .raised attempt begun cancelled) →
      (s.setWorker worker new).Undisturbed := by
    intro worker new hnew other attempt begun cancelled hlookup
    by_cases he : other = worker
    · subst he
      exact hnew attempt begun cancelled
        (Option.some.inj ((Dict.lookup_set_self _ _ _).symm.trans hlookup))
    · exact h other attempt begun cancelled ((Dict.lookup_set_of_ne he _ _).symm.trans hlookup)
  cases stepped taken with
  | took _ _ => exact hmove nofun
  | finished _ _ => exact hmove nofun
  | incomparable _ _ => exact hmove nofun
  | began _ _ => exact hmove nofun
  | returned _ _ => exact hmove nofun
  | scored _ _ => exact hmove nofun
  | aborted _ _ => cases quiet
  | reported _ _ _ _ => exact h

/-- Without disturbance, an evaluation goes on until it reports or stands at an incomparable input. -/
theorem Sound.progress (h : Sound e s) (undisturbed : s.Undisturbed) (open_ : s.report = none) :
    s.Stuck ∨ ∃ event next, event.isAbort = false ∧ s.step e event = some next := by
  -- all workers are done and the report is due, or some worker has a next event of its own
  by_cases hall : ∀ worker ∈ s.workers, worker.2 = .finished
  · refine .inr ⟨.report, { s with report := some (.make e.pipeline (e.planned.map e.reportOf) s.resumed) },
      rfl, ?_⟩
    have hfull := h.full_of_finished hall
    have hended : ¬ (s.report.isSome ∨ ¬ s.workers.all (·.2.ended)) := by
      rw [open_, not_or, not_not]
      refine ⟨Bool.false_ne_true, List.all_eq_true.mpr fun worker hw => ?_⟩
      rw [hall worker hw]
      rfl
    simp only [Schedule.step]
    rw [if_neg hended, if_neg (not_not.mpr hfull), h.collected hfull]
  · push Not at hall
    obtain ⟨⟨worker, phase⟩, hmem, hgoing⟩ := hall
    have found := Dict.lookup_of_mem h.nodup hmem
    cases phase with
    | finished => exact absurd rfl hgoing
    | raised attempt begun cancelled =>
      exact absurd found (undisturbed worker attempt begun cancelled)
    | incomparable attempt => exact .inl ⟨worker, attempt, found⟩
    | idle =>
      refine .inr ⟨.take worker, ?_⟩
      simp only [Schedule.step, found]
      cases e.planned[s.next]? with
      | none => exact ⟨_, rfl, rfl⟩
      | some attempt => exact ⟨_, rfl, rfl⟩
    | taken attempt =>
      refine .inr ⟨.begin worker, ?_⟩
      simp only [Schedule.step, found]
      cases e.saved attempt with
      | error error => exact ⟨_, rfl, rfl⟩
      | ok saved => exact ⟨_, rfl, rfl⟩
    | running attempt saved =>
      refine .inr ⟨.return worker, ?_⟩
      simp only [Schedule.step, found]
      exact ⟨_, rfl, rfl⟩
    | scoring attempt saved =>
      refine .inr ⟨.score worker, ?_⟩
      simp only [Schedule.step, found]
      exact ⟨_, rfl, rfl⟩

/-- An evaluation that nothing disturbs can go on to its end. -/
theorem Sound.completes (h : Sound e s) (undisturbed : s.Undisturbed) :
    ∃ events last, (∀ event ∈ events, event.isAbort = false) ∧
      (machine e).run s events = some last ∧ (last.Stuck ∨ last.report.isSome) := by
  induction hleft : s.left e using Nat.strong_induction_on generalizing s with
  | _ left ih =>
    cases hr : s.report with
    | some report =>
      refine ⟨[], s, nofun, rfl, .inr ?_⟩
      rw [hr]
      rfl
    | none =>
      rcases h.progress undisturbed hr with hstuck | ⟨event, next, quiet, taken⟩
      · exact ⟨[], s, nofun, rfl, .inl hstuck⟩
      · have hlt : next.left e < left := hleft ▸ h.left_lt taken
        obtain ⟨events, last, hquiet, ran, hend⟩ :=
          ih (next.left e) hlt (h.step taken) (undisturbed.step quiet taken) rfl
        refine ⟨event :: events, last, ?_, ?_, hend⟩
        · intro other hother
          rcases List.mem_cons.mp hother with rfl | hother
          · exact quiet
          · exact hquiet other hother
        · have hstep : (machine e).step s event = some next := taken
          unfold Machine.run
          rw [hstep]
          exact ran

/-- A run without aborts. -/
theorem Undisturbed.run {events : List ScheduleEvent} {last : Schedule C M} (h : s.Undisturbed)
    (quiet : ∀ event ∈ events, event.isAbort = false)
    (ran : (machine e).run s events = some last) : last.Undisturbed := by
  induction events generalizing s with
  | nil =>
    cases ran
    exact h
  | cons event events ih =>
    unfold Machine.run at ran
    cases taken : (machine e).step s event with
    | none =>
      rw [taken] at ran
      cases ran
    | some next =>
      rw [taken] at ran
      exact ih (h.step (quiet event List.mem_cons_self) taken)
        (fun other hother => quiet other (List.mem_cons_of_mem _ hother)) ran

end Schedule

/-! ## Records -/

namespace EvaluationPlan

variable {C M : Type} {e : EvaluationPlan C M} {attempt : Planned}

end EvaluationPlan

namespace Schedule

variable {C M : Type} {e : EvaluationPlan C M} {s : Schedule C M}

end Schedule

/-! ## A record at the depth limit -/

/-- Rationals in the text of numbers: an integer as it is, another with its denominator in the place
of the exponent. -/
def exactFloats : Floats ℚ where
  number x :=
    { Number.ofInt x.num with
      fraction := ['0']
      exponent := if x.den = 1 then [] else 'e' :: Nat.toDigits 10 x.den }
  ofNumber n := mkRat n.toInt (if n.exponent = [] then 1 else Nat.ofDigitChars 10 n.exponent.tail 0)
  ofInt n := some n
  isNegative x := decide (x < 0)
  isFinite _ := true
  maxDigits := 4300
  maxLevels := 1000
  valid x :=
    { whole_ne_nil := (Number.ofInt_valid x.num).whole_ne_nil
      whole_digits := (Number.ofInt_valid x.num).whole_digits
      no_leading_zero := (Number.ofInt_valid x.num).no_leading_zero
      fraction_digits := by
        intro c hc
        rw [List.mem_singleton.mp hc]
        rfl
      exponent_text := by
        split_ifs
        · exact .inl rfl
        · exact .inr ⟨'e', [], _, rfl, .inl rfl, .inl rfl, Nat.toDigits_ne_nil,
            fun _ hc => Nat.isDigit_of_mem_toDigits (by decide) (by decide) hc⟩ }
  not_int x := rfl
  ofNumber_number x _ := by
    show mkRat (Number.ofInt x.num).toInt _ = x
    rw [Number.toInt_ofInt]
    by_cases hden : x.den = 1
    · rw [if_pos (if_pos hden)]
      nth_rewrite 1 [← hden]
      exact Rat.mkRat_self x
    · have hcons : ¬ (if x.den = 1 then [] else 'e' :: Nat.toDigits 10 x.den) = [] := by
        rw [if_neg hden]
        exact List.cons_ne_nil _ _
      rw [if_neg hcons, if_neg hden, List.tail_cons, Nat.ofDigitChars_ten_toDigits]
      exact Rat.mkRat_self x

/-- Arrays around a null. -/
def nested : ℕ → Json
  | 0 => .null
  | n + 1 => .arr [nested n]

end Foliqant.Evaluation
