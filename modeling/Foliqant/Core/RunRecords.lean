import Foliqant.Common.Emission
import Foliqant.Core.RunBehavior

/-!
# What a run records of its route

The recorded start and transitions come from the plan: each transition was selected after a routed flow
of the plan, from the boundary of its status.
-/

namespace Foliqant.Core

open Emission

/-- The transition was selected after a routed flow of the plan. -/
def Taken (plan : WorkflowPlan) (transition : TransitionRecord) : Prop :=
  ∃ flow ∈ plan.flows, flow.callable = false ∧ ∃ status issues context selected,
    Chosen flow status issues context selected ∧ transition = selected.transition flow.name status

/-- The start was selected from the start of the plan. -/
def Started (plan : WorkflowPlan) (start : StartRecord) : Prop :=
  plan.start = .flow start.flow ∧ start.routeIndex = none ∨
    ∃ route i entry, plan.start = .route route ∧ route.entries[i]? = some entry ∧
      entry.target.flow = some start.flow ∧ start.routeIndex = some i

variable {r : WorkflowRunner} {envelope : AcceptedEnvelope}

/-- The recorded start and transitions are kept. -/
structure Keeps (l l' : RunLocals) : Prop where
  start : l'.start = l.start
  transitions : l'.transitions = l.transitions

/-- Choosing a target records no transition yet. -/
theorem targetRan_keeps {flow : FlowPlan} {record : FlowRecord} {issues : List DecisionIssue}
    {l : RunLocals} {w : World} {result : EStateM.Result Exn (RunLocals × World) Routed}
    (ran : TargetRan envelope flow record issues l w result) : (after result).1 = l := by
  cases ran <;> rfl

/-- The attempts of a flow record no transition yet. -/
theorem attemptsRan_keeps {flow : FlowPlan} {rep : RepeatPlan} {remaining : ℕ}
    {attempts : List FlowRun} {inputs : Object} {l : RunLocals} {w : World}
    {result : EStateM.Result Exn (RunLocals × World) Routed}
    (ran : RoutedAttemptsRan r envelope flow rep remaining attempts inputs l w result) :
    Keeps l (after result).1 := by
  induction ran with
  | none => exact ⟨rfl, rfl⟩
  | envelopeFailed => exact ⟨rfl, rfl⟩
  | decisionFailed => exact ⟨rfl, rfl⟩
  | again _ _ _ _ ih => exact ⟨ih.start, ih.transitions⟩
  | failed => exact ⟨rfl, rfl⟩
  | ended _ _ _ _ _ target =>
    rw [targetRan_keeps target]
    exact ⟨rfl, rfl⟩

/-- A routed flow records no transition yet. -/
theorem routedRan_keeps {flow : FlowPlan} {l : RunLocals} {w : World}
    {result : EStateM.Result Exn (RunLocals × World) Routed}
    (ran : RoutedRan r envelope flow l w result) : Keeps l (after result).1 := by
  cases ran with
  | late => exact ⟨rfl, rfl⟩
  | inputFailed => exact ⟨rfl, rfl⟩
  | envelopeFailed => exact ⟨rfl, rfl⟩
  | failed => exact ⟨rfl, rfl⟩
  | repeated _ _ ran =>
    have kept := attemptsRan_keeps ran
    exact ⟨kept.start, kept.transitions⟩
  | ended _ _ _ _ _ target =>
    rw [targetRan_keeps target]
    exact ⟨rfl, rfl⟩

/-- The transition was selected after the flow. -/
def TakenAfter (flow : FlowPlan) (transition : TransitionRecord) : Prop :=
  ∃ status issues context selected, Chosen flow status issues context selected ∧
    transition = selected.transition flow.name status

/-- A chosen target is one that the flow may take. -/
theorem targetRan_taken {flow : FlowPlan} {record : FlowRecord} {issues : List DecisionIssue}
    {l : RunLocals} {w : World} {destination : TransitionTargetPlan} {transition : TransitionRecord}
    {s : RunLocals × World}
    (ran : TargetRan envelope flow record issues l w (.ok (.boundary destination transition) s)) :
    TakenAfter flow transition := by
  cases ran with
  | boundary chosen => exact ⟨_, _, _, _, chosen, rfl⟩

/-- After its attempts a flow takes one of its targets. -/
theorem attemptsRan_taken {flow : FlowPlan} {rep : RepeatPlan} {remaining : ℕ}
    {attempts : List FlowRun} {inputs : Object} {l : RunLocals} {w : World}
    {result : EStateM.Result Exn (RunLocals × World) Routed}
    (ran : RoutedAttemptsRan r envelope flow rep remaining attempts inputs l w result)
    {destination : TransitionTargetPlan} {transition : TransitionRecord} {s : RunLocals × World}
    (boundary : result = .ok (.boundary destination transition) s) : TakenAfter flow transition := by
  induction ran with
  | none => cases boundary
  | envelopeFailed => cases boundary
  | decisionFailed => cases boundary
  | again _ _ _ _ ih => exact ih boundary
  | failed => cases boundary
  | ended _ _ _ _ _ target =>
    subst boundary
    exact targetRan_taken target

/-- A routed flow takes one of its targets. -/
theorem routedRan_taken {flow : FlowPlan} {l : RunLocals} {w : World}
    {destination : TransitionTargetPlan} {transition : TransitionRecord} {s : RunLocals × World}
    (ran : RoutedRan r envelope flow l w (.ok (.boundary destination transition) s)) :
    TakenAfter flow transition := by
  cases ran with
  | repeated _ _ ran => exact attemptsRan_taken ran rfl
  | ended _ _ _ _ _ target => exact targetRan_taken target

/-- What the routing recorded: the start, if any, and the transitions come from the plan. -/
structure Recorded (plan : WorkflowPlan) (l : RunLocals) : Prop where
  start : ∀ start, l.start = some start → Started plan start
  transitions : ∀ transition ∈ l.transitions, Taken plan transition

/-- What is recorded stays so where nothing is recorded. -/
theorem Recorded.of_keeps {plan : WorkflowPlan} {l l' : RunLocals} (recorded : Recorded plan l)
    (kept : Keeps l l') : Recorded plan l' :=
  ⟨kept.start ▸ recorded.start, kept.transitions ▸ recorded.transitions⟩

/-- A taken transition is recorded. -/
theorem Recorded.take {plan : WorkflowPlan} {l : RunLocals} {transition : TransitionRecord}
    (recorded : Recorded plan l) (taken : Taken plan transition) :
    Recorded plan (l.take transition) :=
  ⟨recorded.start, List.forall_mem_append.mpr
    ⟨recorded.transitions, List.forall_mem_singleton.mpr taken⟩⟩

/-- A flow that was entered is the source of its transition. -/
theorem Enters.taken {visited : List String} {name : String} {flow : FlowPlan}
    {transition : TransitionRecord} (enters : Enters r visited name flow)
    (taken : TakenAfter flow transition) : Taken r.plan transition :=
  ⟨flow, WorkflowPlan.flow?_mem enters.known, enters.routed, taken⟩

/-- The routing from a flow on records the transitions taken. -/
theorem flowsRan_recorded {remaining : ℕ} {visited : List String} {name : String} {l : RunLocals}
    {w : World} {result : EStateM.Result Exn (RunLocals × World) Ending}
    (ran : FlowsRan r envelope remaining visited name l w result) (recorded : Recorded r.plan l) :
    Recorded r.plan (after result).1 := by
  induction ran with
  | late => exact recorded
  | misrouted => exact recorded
  | raised _ ran => exact recorded.of_keeps (routedRan_keeps ran)
  | failed _ ran => exact recorded.of_keeps (routedRan_keeps ran)
  | ended enters ran =>
    exact (recorded.of_keeps (routedRan_keeps ran)).take (Enters.taken enters (routedRan_taken ran))
  | next enters ran _ _ ih =>
    refine ih ?_
    exact (recorded.of_keeps (routedRan_keeps ran)).take (Enters.taken enters (routedRan_taken ran))

/-- The first flow is one of the start. -/
theorem startRan_started {l : RunLocals} {w : World} {start : StartRecord} {s : RunLocals × World}
    (ran : StartRan r l w (.ok start s)) : Started r.plan start ∧ s.1 = l := by
  cases ran with
  | direct start => exact ⟨.inl ⟨start, rfl⟩, rfl⟩
  | routed start at_ flow => exact ⟨.inr ⟨_, _, _, start, at_, flow, rfl⟩, rfl⟩

/-- Nothing is recorded yet. -/
theorem recorded_start (target : RunTarget) : Recorded r.plan (startLocals r target) :=
  ⟨fun _ start => (nomatch start), List.forall_mem_nil _⟩

/-- A run of one flow records no transition. -/
theorem aloneRan_recorded {name : String} {stepId : Option String} {l : RunLocals} {w : World}
    {result : EStateM.Result Exn (RunLocals × World) Ending}
    (ran : AloneRan r envelope name stepId l w result) (recorded : Recorded r.plan l) :
    Recorded r.plan (after result).1 := by
  cases ran with
  | late => exact recorded
  | unknown => exact recorded
  | ran => exact recorded.of_keeps ⟨rfl, rfl⟩

/-- The output records no transition. -/
theorem outputRan_recorded {ending : Ending} {l : RunLocals} {w : World}
    {result : EStateM.Result Exn (RunLocals × World) Ending}
    (ran : OutputRan r envelope ending l w result) : (after result).1 = l := by
  cases ran <;> rfl

/-- What a run does for its target records the transitions taken. -/
theorem targetBody_recorded {target : RunTarget} {l : RunLocals} {w : World}
    {result : EStateM.Result Exn (RunLocals × World) Ending}
    (ran : TargetBody r envelope l w target result) (recorded : Recorded r.plan l) :
    Recorded r.plan (after result).1 := by
  have started {start : StartRecord} {l₁ : RunLocals} {w₁ : World}
      (ran : StartRan r l w (.ok start (l₁, w₁))) :
      Recorded r.plan { l₁ with start := some start } := by
    obtain ⟨started, rfl⟩ := startRan_started ran
    refine ⟨fun other same => ?_, recorded.transitions⟩
    obtain rfl := Option.some.inj same
    exact started
  cases ran with
  | startFailed start =>
    cases start with
    | failed => exact recorded
    | misrouted => exact recorded
  | routingFailed start flows => exact flowsRan_recorded flows (started start)
  | routed start flows output =>
    rw [outputRan_recorded output]
    exact flowsRan_recorded flows (started start)
  | flow ran => exact aloneRan_recorded ran recorded
  | step ran => exact aloneRan_recorded ran recorded

/-- A failure of the run keeps what is recorded. -/
theorem bodyRan_recorded {target : RunTarget} {l : RunLocals} {w : World}
    {result : EStateM.Result Exn (RunLocals × World) Ending}
    (ran : BodyRan r envelope target l w result) (recorded : Recorded r.plan l) :
    Recorded r.plan (after result).1 := by
  cases ran with
  | raised body => exact targetBody_recorded body recorded
  | late body =>
    have ended : Recorded r.plan _ := targetBody_recorded body recorded
    exact ended
  | ended body =>
    have ended : Recorded r.plan _ := targetBody_recorded body recorded
    exact ended

/-- A failure at the top records no transition. -/
theorem interrupted_keeps (failure : Failure) (l : RunLocals) :
    Keeps l (interrupted r failure l) := by
  unfold interrupted
  split <;> exact ⟨rfl, rfl⟩

/-- Whatever a run records comes from the plan. -/
theorem run_recorded (target : RunTarget) :
    (∀ start, (run r envelope target).1.start = some start → Started r.plan start) ∧
      ∀ transition ∈ (run r envelope target).1.transitions, Taken r.plan transition := by
  have ran := run_ran r envelope target
  generalize run r envelope target = result at ran
  cases ran with
  | ended body =>
    have recorded := bodyRan_recorded body (recorded_start target)
    exact ⟨recorded.start, recorded.transitions⟩
  | @raised _ failure l _ _ body =>
    have raised : Recorded r.plan l := bodyRan_recorded body (recorded_start target)
    have recorded := raised.of_keeps (@interrupted_keeps r failure l)
    exact ⟨recorded.start, recorded.transitions⟩

/-! ## What a routed flow changes -/

/-- A run of the flow that has a result. -/
structure Finished (record : FlowRecord) : Prop where
  status : record.status ≠ .failed
  result : record.result.isSome

/-- The flow has another name than a routed flow and than its retry flow. -/
structure Apart (flow : FlowPlan) (name : String) : Prop where
  ne : name ≠ flow.name
  retry : ∀ rep, flow.repeatPlan = some rep → rep.retryFlow ≠ some name

/-- Only the records of a routed flow and of its retry flow changed. -/
def OthersKept (flow : FlowPlan) (records records' : Records) : Prop :=
  ∀ name, Apart flow name → records'.lookup name = records.lookup name

section Changes

variable {flow : FlowPlan}

/-- Nothing changed. -/
theorem OthersKept.refl (records : Records) : OthersKept flow records records := fun _ _ => rfl

/-- The others are kept, twice. -/
theorem OthersKept.trans {records records' records'' : Records}
    (first : OthersKept flow records records')
    (rest : OthersKept flow records' records'') : OthersKept flow records records'' :=
  fun name apart => (rest name apart).trans (first name apart)

/-- Recording the flow itself. -/
theorem OthersKept.set (record : FlowRecord) (records : Records) :
    OthersKept flow records (Dict.set flow.name record records) :=
  fun _ apart => Dict.lookup_set_of_ne apart.ne record records

/-- Recording its retry flow. -/
theorem OthersKept.setRetry {rep : RepeatPlan} (repeats : flow.repeatPlan = some rep) {name : String}
    (retries : rep.retryFlow = some name) (retry : FlowRun) (records : Records) :
    OthersKept flow records (setRetry name retry records) := by
  intro other apart
  refine Dict.lookup_set_of_ne ?_ _ _
  rintro rfl
  exact apart.retry rep repeats retries

/-- An execution that did not fail has a result. -/
theorem executeFlow_result {call : FlowCall} {w w' : World} {record : FlowRun}
    {issues : List DecisionIssue} (ran : executeFlow r call w = ((record, issues), w'))
    (status : record.status ≠ .failed) : record.result.isSome := by
  have run_ (l : FlowLocals) (elapsed : ℚ) (same : record = l.run elapsed) :
      record.result.isSome := by
    subst same
    have own : (l.run elapsed).result = some l.result := if_neg status
    rw [own]
    rfl
  unfold executeFlow at ran
  cases depth : MAX_COLLECTION_DEPTH - call.collectionDepth with
  | zero =>
    rw [depth] at ran
    exact run_ _ _ (congrArg (fun result => result.1.1) ran).symm
  | succ depth' =>
    rw [depth] at ran
    exact run_ _ _ (congrArg (fun result => result.1.1) ran).symm

section Repeat

variable {run : FlowCall → World → (FlowRun × List DecisionIssue) × World} {rep : RepeatPlan}
  {scope : RepeatScope} {attempt : ℕ} {issues : List DecisionIssue} {records : Records} {w : World}
  (repeats : flow.repeatPlan = some rep)
include repeats

/-- A retry run records the retry flow only. -/
theorem retryRan_kept {result : EStateM.Result Exn (Records × World) (Option RepeatDecision)}
    (ran : RetryRan r run flow rep scope attempt issues records w result) :
    OthersKept flow records (after result).1 := by
  cases ran with
  | absent => exact .refl records
  | unknown => exact .refl records
  | inputFailed name => exact .setRetry repeats name _ records
  | envelopeFailed => exact .refl records
  | failed ran => exact .setRetry repeats ran.name _ records
  | review ran => exact .setRetry repeats ran.name _ records
  | conditionFailed ran => exact .setRetry repeats ran.name _ records
  | stop ran => exact .setRetry repeats ran.name _ records
  | goOn ran => exact .setRetry repeats ran.name _ records

/-- What is decided after an attempt records the retry flow only. -/
theorem decisionRan_kept {record : FlowRun}
    {result : EStateM.Result Exn (Records × World) RepeatDecision}
    (ran : DecisionRan r run flow rep scope record attempt issues records w result) :
    OthersKept flow records (after result).1 := by
  cases ran with
  | failure => exact .refl records
  | review => exact .refl records
  | untilFailed => exact .refl records
  | untilMet => exact .refl records
  | exhausted => exact .refl records
  | retryRaised _ _ _ _ retry => exact retryRan_kept repeats retry
  | retryStopped _ _ _ _ retry => exact retryRan_kept repeats retry
  | nextFailed _ _ _ _ retry => exact retryRan_kept repeats retry
  | again _ _ _ _ retry => exact retryRan_kept repeats retry

end Repeat

/-- A repeat that does not end as failed stopped after an attempt that did not fail. -/
theorem decisionRan_unfailed {run : FlowCall → World → (FlowRun × List DecisionIssue) × World}
    {rep : RepeatPlan} {scope : RepeatScope} {attempt : ℕ} {issues issues' : List DecisionIssue}
    {records records' : Records} {w w' : World} {record : FlowRun} {stop : RepeatStop}
    {status : Option Status} {failure : Option Failure}
    (ran : DecisionRan r run flow rep scope record attempt issues records w
      (.ok (.stopped stop issues' status failure) (records', w')))
    (ended : status.getD record.status ≠ .failed) : record.status ≠ .failed := by
  cases ran with
  | failure => exact ended
  | review => exact ended
  | untilMet failed => exact failed
  | exhausted failed => exact failed
  | retryStopped failed => exact failed
  | nextFailed failed => exact failed

/-- A flow that was recorded stays so while its target is chosen. -/
theorem targetRan_finished {record : FlowRecord} {issues : List DecisionIssue}
    {l : RunLocals} {w : World}
    {result : EStateM.Result Exn (RunLocals × World) Routed} (finished : Finished record)
    (known : l.records.lookup flow.name = some record)
    (ran : TargetRan envelope flow record issues l w result) :
    ∃ own, (after result).1.records.lookup flow.name = some own ∧ Finished own := by
  rw [targetRan_keeps ran]
  exact ⟨record, known, finished⟩

/-- What a routed flow does to the records: a flow that reached its routes has finished. -/
structure Leaves (flow : FlowPlan) (records : Records)
    (result : EStateM.Result Exn (RunLocals × World) Routed) : Prop where
  kept : OthersKept flow records (after result).1.records
  finished : ∀ destination transition s, result = .ok (.boundary destination transition) s →
    ∃ record, s.1.records.lookup flow.name = some record ∧ Finished record

/-- The attempts of a flow leave the other flows. -/
theorem attemptsRan_leaves {rep : RepeatPlan} (repeats : flow.repeatPlan = some rep) {remaining : ℕ}
    {attempts : List FlowRun} {inputs : Object} {l : RunLocals} {w : World}
    {result : EStateM.Result Exn (RunLocals × World) Routed}
    (ran : RoutedAttemptsRan r envelope flow rep remaining attempts inputs l w result) :
    Leaves flow l.records result := by
  induction ran with
  | none => exact ⟨.refl _, fun _ _ _ failed => nomatch failed⟩
  | envelopeFailed => exact ⟨.refl _, fun _ _ _ failed => nomatch failed⟩
  | decisionFailed _ _ decision =>
    have changed := (OthersKept.set _ _).trans (decisionRan_kept repeats decision)
    exact ⟨changed, fun _ _ _ failed => nomatch failed⟩
  | again _ _ decision _ ih =>
    have changed := (OthersKept.set _ _).trans (decisionRan_kept repeats decision)
    exact ⟨(changed.trans (.set _ _)).trans ih.kept, ih.finished⟩
  | failed _ _ decision =>
    have changed := (OthersKept.set _ _).trans (decisionRan_kept repeats decision)
    refine ⟨changed.trans (.set _ _), fun _ _ _ failed => ?_⟩
    cases failed
  | ended _ ran decision aggregates fails target =>
    have changed := (OthersKept.set _ _).trans (decisionRan_kept repeats decision)
    subst aggregates
    have ended := not_or.mp fails
    have status := decisionRan_unfailed decision ended.1
    have result := executeFlow_result ran status
    have finished : Finished (decided _ _ _) := ⟨ended.1, result⟩
    constructor
    · rw [targetRan_keeps target]
      exact changed.trans (.set _ _)
    · rintro _ _ s rfl
      exact targetRan_finished finished (Dict.lookup_set_self _ _ _) target

/-- A routed flow changes only its own record and that of its retry flow, and leaves by its routes only
with a result. -/
theorem routedRan_leaves {l : RunLocals} {w : World}
    {result : EStateM.Result Exn (RunLocals × World) Routed}
    (ran : RoutedRan r envelope flow l w result) : Leaves flow l.records result := by
  cases ran with
  | late => exact ⟨.refl _, fun _ _ _ failed => nomatch failed⟩
  | inputFailed => exact ⟨.refl _, fun _ _ _ failed => nomatch failed⟩
  | envelopeFailed => exact ⟨.refl _, fun _ _ _ failed => nomatch failed⟩
  | repeated _ repeats ran =>
    have left := attemptsRan_leaves repeats ran
    exact ⟨left.kept, left.finished⟩
  | failed => exact ⟨.set _ _, fun _ _ _ failed => nomatch failed⟩
  | ended _ _ _ ran fails target =>
    have finished : Finished { toFlowRun := _ } := ⟨fails, executeFlow_result ran fails⟩
    constructor
    · rw [targetRan_keeps target]
      exact .set _ _
    · rintro _ _ s rfl
      exact targetRan_finished finished (Dict.lookup_set_self _ _ _) target

end Changes

/-! ## The recorded route -/

/-- The boundary was selected after the flow, and its transition records the destination. -/
def TakenTo (flow : FlowPlan) (destination : TransitionTargetPlan) (transition : TransitionRecord) :
    Prop :=
  ∃ status issues context selected, Chosen flow status issues context selected ∧
    transition = selected.transition flow.name status ∧ destination = selected.target

/-- A transition to a target is one after the flow. -/
theorem TakenTo.after {flow : FlowPlan} {destination : TransitionTargetPlan}
    {transition : TransitionRecord} (taken : TakenTo flow destination transition) :
    TakenAfter flow transition := by
  obtain ⟨status, issues, context, selected, chosen, same, -⟩ := taken
  exact ⟨status, issues, context, selected, chosen, same⟩

/-- The transition leads to the flow of the destination, or ends with its outcome, never both. -/
theorem TakenTo.goes {flow : FlowPlan} {destination : TransitionTargetPlan}
    {transition : TransitionRecord} (taken : TakenTo flow destination transition) :
    transition.flow = destination.flow ∧ transition.outcome = destination.outcome ∧
      transition.flow.isNone ≠ transition.outcome.isNone := by
  obtain ⟨status, issues, context, selected, chosen, rfl, rfl⟩ := taken
  exact ⟨rfl, rfl, chosen.single⟩

/-- The recorded transition leads to the chosen target. -/
theorem targetRan_takenTo {flow : FlowPlan} {record : FlowRecord} {issues : List DecisionIssue}
    {l : RunLocals} {w : World} {destination : TransitionTargetPlan} {transition : TransitionRecord}
    {s : RunLocals × World}
    (ran : TargetRan envelope flow record issues l w (.ok (.boundary destination transition) s)) :
    TakenTo flow destination transition := by
  cases ran with
  | boundary chosen => exact ⟨_, _, _, _, chosen, rfl, rfl⟩

/-- After its attempts the recorded transition leads to the chosen target. -/
theorem attemptsRan_takenTo {flow : FlowPlan} {rep : RepeatPlan} {remaining : ℕ}
    {attempts : List FlowRun} {inputs : Object} {l : RunLocals} {w : World}
    {result : EStateM.Result Exn (RunLocals × World) Routed}
    (ran : RoutedAttemptsRan r envelope flow rep remaining attempts inputs l w result)
    {destination : TransitionTargetPlan} {transition : TransitionRecord} {s : RunLocals × World}
    (boundary : result = .ok (.boundary destination transition) s) :
    TakenTo flow destination transition := by
  induction ran with
  | none => cases boundary
  | envelopeFailed => cases boundary
  | decisionFailed => cases boundary
  | again _ _ _ _ ih => exact ih boundary
  | failed => cases boundary
  | ended _ _ _ _ _ target =>
    subst boundary
    exact targetRan_takenTo target

/-- The recorded transition of a routed flow leads to its target. -/
theorem routedRan_takenTo {flow : FlowPlan} {l : RunLocals} {w : World}
    {destination : TransitionTargetPlan} {transition : TransitionRecord} {s : RunLocals × World}
    (ran : RoutedRan r envelope flow l w (.ok (.boundary destination transition) s)) :
    TakenTo flow destination transition := by
  cases ran with
  | repeated _ _ ran => exact attemptsRan_takenTo ran rfl
  | ended _ _ _ _ _ target => exact targetRan_takenTo target

/-- Transitions of a run from a flow on: each one was selected after the flow that the one before it
leads to, and the last one has an outcome, unless the run stops in a flow. -/
inductive Journey (plan : WorkflowPlan) :
    String → List TransitionRecord → Option Disposition → Prop
  | stopped {name : String} : Journey plan name [] none
  | ended {flow : FlowPlan} {transition : TransitionRecord} (mem : flow ∈ plan.flows)
      (routed : flow.callable = false) (taken : TakenAfter flow transition)
      (last : transition.flow = none) : Journey plan flow.name [transition] transition.outcome
  | next {flow : FlowPlan} {transition : TransitionRecord} {name : String}
      {transitions : List TransitionRecord} {outcome : Option Disposition} (mem : flow ∈ plan.flows)
      (routed : flow.callable = false) (taken : TakenAfter flow transition)
      (goes : transition.flow = some name) (rest : Journey plan name transitions outcome) :
      Journey plan flow.name (transition :: transitions) outcome

/-- The status of a run whose route ended with an outcome. -/
def endStatus : Disposition → Status
  | .needsReview => .needsReview
  | .completed => .completed

/-- What the routing from a flow on records: a journey, which a run that did not fail has finished. -/
def Journeys (plan : WorkflowPlan) (name : String) (before : List TransitionRecord)
    (result : EStateM.Result Exn (RunLocals × World) Ending) : Prop :=
  ∃ transitions outcome, (after result).1.transitions = before ++ transitions ∧
    Journey plan name transitions outcome ∧ ∀ ending s, result = .ok ending s →
      ending.status = .failed ∨ ∃ disposition, outcome = some disposition ∧
        ending.status = endStatus disposition

/-- A run that stops has recorded the way up to there. -/
theorem journeys_stopped {plan : WorkflowPlan} {name : String} {before : List TransitionRecord}
    {result : EStateM.Result Exn (RunLocals × World) Ending}
    (kept : (after result).1.transitions = before)
    (failed : ∀ ending s, result = .ok ending s → ending.status = .failed) :
    Journeys plan name before result :=
  ⟨[], none, by rw [kept, List.append_nil],
    .stopped, fun ending s same => .inl (failed ending s same)⟩

/-- The transitions that a run adds from a flow on are a journey. -/
theorem flowsRan_journeys {remaining : ℕ} {visited : List String} {name : String} {l : RunLocals}
    {w : World} {result : EStateM.Result Exn (RunLocals × World) Ending}
    (ran : FlowsRan r envelope remaining visited name l w result) :
    Journeys r.plan name l.transitions result := by
  induction ran with
  | late => exact journeys_stopped rfl fun _ _ failed => nomatch failed
  | misrouted => exact journeys_stopped rfl fun _ _ failed => nomatch failed
  | raised _ ran =>
    exact journeys_stopped (routedRan_keeps ran).transitions fun _ _ failed => nomatch failed
  | failed _ ran =>
    refine journeys_stopped (routedRan_keeps ran).transitions fun ending s same => ?_
    obtain ⟨rfl, -⟩ := EStateM.Result.ok.inj same
    rfl
  | @ended _ _ name flow l l' w w' target transition enters ran none_ =>
    obtain ⟨known, routed⟩ := And.intro (WorkflowPlan.flow?_mem enters.known) enters.routed
    obtain rfl := WorkflowPlan.flow?_name enters.known
    have taken := routedRan_takenTo ran
    obtain ⟨goes, outcome, single⟩ := taken.goes
    rw [none_] at goes
    refine ⟨[transition], transition.outcome, ?_, .ended known routed taken.after goes,
      fun ending s same => .inr ?_⟩
    · exact congrArg (· ++ [transition]) (routedRan_keeps ran).transitions
    · obtain ⟨rfl, -⟩ := EStateM.Result.ok.inj same
      rw [goes] at single
      cases disposition : transition.outcome with
      | none =>
        rw [disposition] at single
        exact absurd rfl single
      | some disposition_ =>
        rw [disposition] at outcome
        refine ⟨disposition_, rfl, ?_⟩
        unfold TransitionTargetPlan.ending
        rw [← outcome]
        cases disposition_ <;> rfl
  | next enters ran goes _ ih =>
    obtain ⟨transitions, outcome, grown, rest, ends⟩ := ih
    obtain ⟨known, routed⟩ := And.intro (WorkflowPlan.flow?_mem enters.known) enters.routed
    obtain rfl := WorkflowPlan.flow?_name enters.known
    have taken := routedRan_takenTo ran
    refine ⟨_ :: transitions, outcome, ?_, .next known routed taken.after ?_ rest, ends⟩
    · rw [grown, List.append_cons]
      exact congrArg (· ++ [_] ++ transitions) (routedRan_keeps ran).transitions
    · rw [taken.goes.1]
      exact goes

/-- What a run of the workflow records of its route: nothing, when no start was selected, or the selected
start with a journey from it. -/
def RouteRecorded (plan : WorkflowPlan) (start : Option StartRecord)
    (transitions : List TransitionRecord) (status : Status) : Prop :=
  (start = none ∧ transitions = [] ∧ status = .failed) ∨
    ∃ first outcome, start = some first ∧ Started plan first ∧
        Journey plan first.flow transitions outcome ∧
      (status = .failed ∨ ∃ disposition, outcome = some disposition ∧ status = endStatus disposition)

/-- A failed run has recorded the way up to there. -/
theorem RouteRecorded.fails {plan : WorkflowPlan} {start : Option StartRecord}
    {transitions : List TransitionRecord} {status : Status}
    (recorded : RouteRecorded plan start transitions status) :
    RouteRecorded plan start transitions .failed := by
  rcases recorded with ⟨none_, empty, -⟩ | ⟨first, outcome, own, started, journey, -⟩
  · exact .inl ⟨none_, empty, rfl⟩
  · exact .inr ⟨first, outcome, own, started, journey, .inl rfl⟩

/-- The output keeps the status. -/
theorem outputRan_status {ending ending' : Ending} {l l' : RunLocals} {w w' : World}
    (ran : OutputRan r envelope ending l w (.ok ending' (l', w'))) :
    ending'.status = ending.status := by
  cases ran <;> rfl

/-- Routing over flows keeps the recorded start. -/
theorem flowsRan_start {remaining : ℕ} {visited : List String} {name : String} {l : RunLocals}
    {w : World} {result : EStateM.Result Exn (RunLocals × World) Ending}
    (ran : FlowsRan r envelope remaining visited name l w result) :
    (after result).1.start = l.start := by
  induction ran with
  | late => rfl
  | misrouted => rfl
  | raised _ ran => exact (routedRan_keeps ran).start
  | failed _ ran => exact (routedRan_keeps ran).start
  | ended _ ran => exact (routedRan_keeps ran).start
  | next _ ran _ _ ih => exact ih.trans (routedRan_keeps ran).start

/-- The status with which a result ends; an exception is a failure. -/
def statusOf : EStateM.Result Exn (RunLocals × World) Ending → Status
  | .ok ending _ => ending.status
  | .error _ _ => .failed

/-- Choosing the first flow records nothing. -/
theorem startRan_keeps {l : RunLocals} {w : World}
    {result : EStateM.Result Exn (RunLocals × World) StartRecord} (ran : StartRan r l w result) :
    (after result).1 = l := by
  cases ran <;> rfl

/-- A run of a workflow records its way from the start to the end. -/
theorem targetBody_route {l : RunLocals} {w : World} {target : RunTarget}
    {result : EStateM.Result Exn (RunLocals × World) Ending} (none_ : l.start = none)
    (empty : l.transitions = []) (ran : TargetBody r envelope l w target result)
    (workflow : target = .workflow) : RouteRecorded r.plan (after result).1.start
      (after result).1.transitions (statusOf result) := by
  -- a started run, whatever ends its flows; projecting the output changes no record
  have routed {first : StartRecord} {l₁ : RunLocals} {w₁ : World}
      {flows : EStateM.Result Exn (RunLocals × World) Ending}
      (start : StartRan r l w (.ok first (l₁, w₁)))
      (routing : FlowsRan r envelope r.plan.flows.length [] first.flow
        { l₁ with start := some first } w₁ flows) : RouteRecorded r.plan (after flows).1.start
          (after flows).1.transitions (statusOf flows) := by
    obtain ⟨started, rfl⟩ := startRan_started start
    obtain ⟨transitions, outcome, grown, journey, ends⟩ := flowsRan_journeys routing
    have all : (after flows).1.transitions = transitions := by
      rw [grown]
      exact congrArg (· ++ transitions) empty
    have own : (after flows).1.start = some first := flowsRan_start routing
    refine .inr ⟨first, outcome, own, started, by rwa [all], ?_⟩
    cases flows with
    | ok ending s => exact ends ending s rfl
    | error error s => exact .inl rfl
  cases ran with
  | startFailed start =>
    have kept := startRan_keeps start
    exact .inl ⟨(congrArg RunLocals.start kept).trans none_,
      (congrArg RunLocals.transitions kept).trans empty, rfl⟩
  | routingFailed start flows => exact routed start flows
  | @routed first l₁ l₂ w₁ w₂ ending result start flows output =>
    have recorded := routed start flows
    have kept := outputRan_recorded output
    cases result with
    | ok ending' s =>
      have same : ending'.status = ending.status := outputRan_status output
      have own : s.1 = l₂ := kept
      show RouteRecorded r.plan s.1.start s.1.transitions ending'.status
      rw [own, same]
      exact recorded
    | error error s =>
      have own : s.1 = l₂ := kept
      show RouteRecorded r.plan s.1.start s.1.transitions .failed
      rw [own]
      exact recorded.fails
  | flow => cases workflow
  | step => cases workflow

/-- A run of the workflow records its start and a journey from it. -/
theorem run_route (r : WorkflowRunner) (envelope : AcceptedEnvelope) :
    RouteRecorded r.plan (run r envelope .workflow).1.start (run r envelope .workflow).1.transitions
      (run r envelope .workflow).1.status := by
  have ran := run_ran r envelope .workflow
  generalize run r envelope .workflow = result at ran
  cases ran with
  | @ended ending l w body =>
    cases body with
    | ended body =>
      have recorded := targetBody_route rfl rfl body rfl
      exact recorded
  | @raised error failure l w w' body =>
    have raised : RouteRecorded r.plan l.start l.transitions .failed := by
      cases body with
      | raised body => exact targetBody_route rfl rfl body rfl
      | late body => exact (targetBody_route rfl rfl body rfl).fails
    have kept := @interrupted_keeps r failure l
    show RouteRecorded r.plan (interrupted r failure l).start
      (interrupted r failure l).transitions .failed
    rw [kept.start, kept.transitions]
    exact raised

end Foliqant.Core
