import Mathlib.Data.List.Chain
import Mathlib.Tactic.Linarith
import Foliqant.Core.Errors

/-!
# Bounded retries

An operation is called again only after an explicitly classified, completed transient failure, within
one deadline. Times are exact seconds of the event loop's clock. The deadline is read from a function,
since the first attempt may shorten it after its admission.
-/

namespace Foliqant.Core

/-- Total attempts and capped exponential full-jitter backoff in seconds. -/
structure RetryPolicy where
  maxAttempts : ℕ := 1
  initialDelaySeconds : ℚ := 1 / 4
  maxDelaySeconds : ℚ := 5
  attempts_bounded : 1 ≤ maxAttempts ∧ maxAttempts ≤ 8 := by decide
  initial_bounded : 0 ≤ initialDelaySeconds ∧ initialDelaySeconds ≤ 60 := by norm_num
  max_bounded : 0 ≤ maxDelaySeconds ∧ maxDelaySeconds ≤ 300 := by norm_num
  ordered : initialDelaySeconds ≤ maxDelaySeconds := by norm_num

/-- An adapter proved a completed transient response. -/
structure TransientFailure where
  code : ErrorCode
  retryAfterSeconds : Option ℚ := none
  nonneg : ∀ seconds ∈ retryAfterSeconds, 0 ≤ seconds := by simp
  deriving DecidableEq

/-- Refusals of the next attempt by a limit of the step. -/
def attemptLimits : List ErrorCode := [.modelRequestLimitReached, .toolCallLimitReached]

/-- What an attempt can raise: a transient failure is told apart from every other service error, and
anything else passes through. -/
inductive Raised (E : Type*) where
  | transient (failure : TransientFailure)
  | service (error : ServiceError)
  | other (exception : E)
  deriving DecidableEq

/-- What a retry runs against: the clock of the event loop, the deadline, the jitter and the operation,
over a state that is theirs. -/
structure Host (σ E T : Type*) where
  time : σ → ℚ
  deadline : σ → ℚ
  /-- The state of the next reading. -/
  next : σ → σ
  uniform : ℚ → σ → ℚ
  operation : ℕ → σ → Except (Raised E) T × σ
  /-- Whether a sleep ended before its timeout. -/
  sleep : ℚ → ℚ → σ → Bool × σ

/-- From one state to a later one the clock does not run backwards and the deadline does not grow. -/
structure Host.Later {σ E T : Type*} (host : Host σ E T) (s s' : σ) : Prop where
  time_le : host.time s ≤ host.time s'
  deadline_le : host.deadline s' ≤ host.deadline s

/-- The clock, the deadline and the timer of the event loop as they are documented. -/
structure Host.Lawful {σ E T : Type*} (host : Host σ E T) : Prop where
  next (s : σ) : host.Later s (host.next s)
  operation (attempt : ℕ) (s : σ) : host.Later s (host.operation attempt s).2
  sleep (delay until_ : ℚ) (s : σ) : host.Later s (host.sleep delay until_ s).2
  slept (delay until_ : ℚ) (s : σ) : (host.sleep delay until_ s).1 = true →
    host.time s + delay ≤ host.time (host.sleep delay until_ s).2
  expired (delay until_ : ℚ) (s : σ) : (host.sleep delay until_ s).1 = false →
    until_ ≤ host.time (host.sleep delay until_ s).2

/-- The wait that a transient failure asks for, with the deadline and the clock it was measured by. -/
structure Wait where
  delay : ℚ
  deadline : ℚ
  now : ℚ

/-- One call of the operation, with the readings before it. -/
structure Attempt (E T : Type*) where
  number : ℕ
  deadline : ℚ
  started : ℚ
  outcome : Except (Raised E) T
  wait : Option Wait := none

/-- How a retry ends. -/
inductive RetryEnding (E T : Type*) where
  | returned (value : T)
  | raised (error : Raised E)
  | assertion
  deriving DecidableEq

/-- The calls that were made, how the retry ended and the state it left. -/
structure RetryOutcome (σ E T : Type*) where
  calls : List (Attempt E T) := []
  ending : RetryEnding E T
  state : σ

/-- One pass of the loop: the retry ends, or the next attempt follows a transient failure. -/
inductive Pass (σ E T : Type*) where
  | ended (run : RetryOutcome σ E T)
  | again (call : Attempt E T) (last : TransientFailure) (state : σ)

variable {σ E T : Type*}

/-- Full jitter below the backoff of this attempt, or the Retry-After where that is longer. -/
def Wait.after (host : Host σ E T) (policy : RetryPolicy) (attempt : ℕ) (failure : TransientFailure)
    (s : σ) : Wait :=
  let cap := min policy.maxDelaySeconds (policy.initialDelaySeconds * 2 ^ (attempt - 1))
  { delay := max (host.uniform cap s) (failure.retryAfterSeconds.getD 0)
    deadline := host.deadline (host.next s)
    now := host.time (host.next (host.next s)) }

/-- What follows a transient failure of an attempt that is not the last one. -/
def backOff (host : Host σ E T) (policy : RetryPolicy) (call : Attempt E T)
    (failure : TransientFailure) (s : σ) : Pass σ E T :=
  let wait := Wait.after host policy call.number failure s
  let call := { call with wait := some wait }
  let s := host.next (host.next s)
  if policy.maxDelaySeconds < wait.delay ∨ wait.deadline - wait.now ≤ wait.delay then
    -- A Retry-After is never clipped to a smaller wait.
    .ended { calls := [call], ending := .raised (.transient failure), state := s }
  else
    match host.sleep wait.delay wait.deadline s with
    | (true, s) => .again call failure s
    | (false, s) =>
        .ended
          { calls := [call], ending := .raised (.service ErrorCode.requestTimeout.error), state := s }

/-- One pass of the loop; `last` is the transient failure of the attempt before. -/
def tryOnce (host : Host σ E T) (policy : RetryPolicy) (attempt : ℕ) (last : Option TransientFailure)
    (s : σ) : Pass σ E T :=
  let deadline := host.deadline s
  let started := host.next s
  if deadline ≤ host.time started then
    .ended { ending := .raised (.service ErrorCode.requestTimeout.error), state := started }
  else
    let result := host.operation attempt started
    let call : Attempt E T :=
      { number := attempt, deadline := deadline, started := host.time started, outcome := result.1 }
    match result.1 with
    | .ok value => .ended { calls := [call], ending := .returned value, state := result.2 }
    | .error (.transient failure) =>
        if attempt = policy.maxAttempts then
          .ended { calls := [call], ending := .raised (.transient failure), state := result.2 }
        else backOff host policy call failure result.2
    | .error (.service error) =>
        .ended
          { calls := [call]
            ending := .raised <|
              match last with
              | some failure => if error.code ∈ attemptLimits then .transient failure
              else .service error
              | none => .service error
            state := result.2 }
    | .error (.other exception) =>
        .ended { calls := [call], ending := .raised (.other exception), state := result.2 }

/-- The loop over the numbers of the attempts. -/
def retryFrom (host : Host σ E T) (policy : RetryPolicy) :
    List ℕ → Option TransientFailure → σ → RetryOutcome σ E T
  | [], _, s => { ending := .assertion, state := s }
  | attempt :: attempts, last, s =>
    match tryOnce host policy attempt last s with
    | .ended run => run
    | .again call failure s =>
      let run := retryFrom host policy attempts (some failure) s
      { run with calls := call :: run.calls }

/-- Retry only typed transient responses within one unchanged operation deadline. -/
def retry (host : Host σ E T) (policy : RetryPolicy) (s : σ) : RetryOutcome σ E T :=
  retryFrom host policy (List.range' 1 policy.maxAttempts) none s

/-! ## Bounds and causes -/

/-- The delay covers the Retry-After, at most the maximum and less than the time left. -/
structure Wait.Fits (policy : RetryPolicy) (failure : TransientFailure) (wait : Wait) : Prop where
  covers : failure.retryAfterSeconds.getD 0 ≤ wait.delay
  le_max : wait.delay ≤ policy.maxDelaySeconds
  lt_left : wait.delay < wait.deadline - wait.now

/-- A call follows another directly: after its transient failure and the wait for it. -/
structure Attempt.Follows (policy : RetryPolicy) (before call : Attempt E T) : Prop where
  number : call.number = before.number + 1
  cause : ∃ failure wait, before.outcome = .error (.transient failure) ∧ before.wait = some wait ∧
    wait.Fits policy failure ∧ wait.now + wait.delay ≤ call.started

/-- The call begins before the deadline that was read for it, which is not after the first one. -/
structure Attempt.InTime (host : Host σ E T) (s : σ) (call : Attempt E T) : Prop where
  started_lt : call.started < call.deadline
  deadline_le : call.deadline ≤ host.deadline s

/-- The calls of a retry that began in state `origin`. -/
structure Calls (host : Host σ E T) (policy : RetryPolicy) (origin : σ) (calls : List (Attempt E T)) :
    Prop where
  numbers : calls.map Attempt.number = List.range' 1 calls.length
  inTime : ∀ call ∈ calls, call.InTime host origin
  chain : calls.IsChain (Attempt.Follows policy)

/-- Before an attempt: every call so far failed transiently, and the wait after the last one is over. -/
structure Ready (host : Host σ E T) (policy : RetryPolicy) (origin : σ) (done : List (Attempt E T))
    (last : Option TransientFailure) (s : σ) : Prop where
  later : host.Later origin s
  calls : Calls host policy origin done
  transient : ∀ call ∈ done, ∃ failure, call.outcome = .error (.transient failure)
  waited : ∀ call ∈ done.getLast?, ∃ failure wait, last = some failure ∧
    call.outcome = .error (.transient failure) ∧ call.wait = some wait ∧ wait.Fits policy failure ∧
    wait.now + wait.delay ≤ host.time s
  first : done = [] → last = none

variable {host : Host σ E T} {policy : RetryPolicy} {origin s s' s'' : σ}
  {done : List (Attempt E T)} {last : Option TransientFailure}

/-- What comes later than later. -/
theorem Host.Later.trans (h : host.Later s s') (h' : host.Later s' s'') : host.Later s s'' :=
  ⟨h.time_le.trans h'.time_le, h'.deadline_le.trans h.deadline_le⟩

/-- No calls yet. -/
theorem Calls.nil : Calls host policy origin [] := ⟨rfl, by simp, .nil⟩

/-- One call more. -/
theorem Calls.append {call : Attempt E T} (h : Calls host policy origin done)
    (number : call.number = done.length + 1) (inTime : call.InTime host origin)
    (follows : ∀ before ∈ done.getLast?, before.Follows policy call) :
    Calls host policy origin (done ++ [call]) := by
  refine ⟨?_, ?_, ?_⟩
  · rw [List.map_append, h.numbers, List.length_append, List.length_singleton, List.range'_1_concat,
      List.map_singleton, number, Nat.add_comm 1]
  · intro other mem
    rcases List.mem_append.mp mem with before | here
    · exact h.inTime other before
    · exact List.mem_singleton.mp here ▸ inTime
  · refine List.isChain_append.mpr ⟨h.chain, .singleton call, ?_⟩
    intro before mem next here
    obtain rfl := Option.some.inj here
    exact follows before mem

/-- The call that an attempt makes, when the deadline has not passed. -/
theorem Ready.called (h : Ready host policy origin done last s) (lawful : host.Lawful)
    {call : Attempt E T} (number : call.number = done.length + 1)
    (deadline : call.deadline = host.deadline s) (started : call.started = host.time (host.next s))
    (early : ¬ host.deadline s ≤ host.time (host.next s)) :
    Calls host policy origin (done ++ [call]) := by
  refine h.calls.append number ⟨?_, ?_⟩ ?_
  · rw [started, deadline]
    exact not_le.mp early
  · rw [deadline]
    exact h.later.deadline_le
  · intro before mem
    obtain ⟨failure, wait, -, outcome, planned, fits, waited⟩ := h.waited before mem
    have position : before.number = done.length := by
      obtain ⟨shorter, rfl⟩ := List.getLast?_eq_some_iff.mp mem
      have numbers := h.calls.numbers
      rw [List.map_append, List.length_append, List.length_singleton, List.range'_1_concat] at numbers
      have last := (List.append_inj' numbers rfl).2
      rw [List.map_singleton, List.singleton_inj] at last
      rw [last, List.length_append, List.length_singleton, Nat.add_comm]
    refine ⟨by rw [number, position], failure, wait, outcome, planned, fits, ?_⟩
    rw [started]
    exact waited.trans (lawful.next s).time_le

/-- Four attempts. -/
def examplePolicy : RetryPolicy := { maxAttempts := 4 }

end Foliqant.Core
