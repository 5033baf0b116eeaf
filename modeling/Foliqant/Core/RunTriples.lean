import Foliqant.Common.Guarantee
import Foliqant.Core.Failures

/-!
# Triples of runs

Pre- and postconditions over the local data of the computations of a run, for a promise about the
boundaries that are evaluated. Steps evaluate none; a repeat evaluates those of its retry flow and of its
next attempt, with what its last attempts recorded. Whatever is known of every execution of a flow that did
not fail is known of every record there.
-/

namespace Foliqant.Core

open Exec Guarantee
open Emission (after)

variable {σ τ α β : Type}

/-- An event other than the evaluation of a boundary. -/
def Event.Plain (event : Event) : Prop := ∀ place records, event ≠ .boundary place records

/-- The log of a computation with locals. -/
def localWatch (σ : Type) (sound : Event → Prop) : Watch (σ × World) Event :=
  ⟨fun s => s.2.log, sound⟩

/-- The log of the world. -/
def worldWatch (sound : Event → Prop) : Watch World Event := ⟨World.log, sound⟩

/-- A triple over local data. -/
def Triple (sound : Event → Prop) (pre : σ → Prop) (x : Exec σ α) (post : α → σ → Prop)
    (fails : σ → Prop) : Prop :=
  Ensures (localWatch σ sound) (fun s => pre s.1) x (fun a s => post a s.1) fun s => fails s.1

/-- A part of a run has sound events only. -/
abbrev Grown (sound : Event → Prop) (w w' : World) : Prop := Grows (worldWatch sound) w w'

section Computations

variable {sound : Event → Prop} {pre fails : σ → Prop} {post : α → σ → Prop}

/-- Triples may be weakened on every side. -/
theorem Triple.mono {pre' fails' : σ → Prop} {post' : α → σ → Prop} {x : Exec σ α}
    (h : Triple sound pre x post fails) (weaker : ∀ l, pre' l → pre l)
    (stronger : ∀ a l, post a l → post' a l) (failing : ∀ l, fails l → fails' l) :
    Triple sound pre' x post' fails' :=
  Ensures.mono h (fun s => weaker s.1) (fun a s => stronger a s.1) fun s => failing s.1

/-- A stronger precondition. -/
theorem Triple.weaken {pre' : σ → Prop} {x : Exec σ α} (h : Triple sound pre x post fails)
    (weaker : ∀ l, pre' l → pre l) : Triple sound pre' x post fails :=
  h.mono weaker (fun _ _ => id) fun _ => id

/-- A weaker postcondition. -/
theorem Triple.strengthen {post' : α → σ → Prop} {x : Exec σ α} (h : Triple sound pre x post fails)
    (stronger : ∀ a l, post a l → post' a l) : Triple sound pre x post' fails :=
  h.mono (fun _ => id) stronger fun _ => id

/-- A computation and what follows it. -/
theorem Triple.bind {x : Exec σ α} {f : α → Exec σ β} {last : β → σ → Prop}
    (first : Triple sound pre x post fails) (rest : ∀ a, Triple sound (post a) (f a) last fails) :
    Triple sound pre (x >>= f) last fails := Ensures.bind first rest

/-- Both branches of a test. -/
theorem Triple.ite {c : Prop} [Decidable c] {x y : Exec σ α} (yes : c → Triple sound pre x post fails)
    (no : ¬ c → Triple sound pre y post fails) : Triple sound pre (if c then x else y) post fails :=
  Ensures.ite yes no

/-- A fact that the precondition has, whatever the data. -/
theorem Triple.given {c : Prop} {x : Exec σ α} (known : ∀ l, pre l → c)
    (h : c → Triple sound pre x post fails) :
    Triple sound pre x post fails := Ensures.given (fun s => known s.1) h

/-- The rest knows what the first part says of its value, and starts from what that keeps. -/
theorem Triple.keep {inv : σ → Prop} {c : α → Prop} {x : Exec σ α} {f : α → Exec σ β}
    {last : β → σ → Prop}
    (first : Triple sound pre x (fun a l => inv l ∧ c a) fails)
    (rest : ∀ a, c a → Triple sound inv (f a) last fails) : Triple sound pre (x >>= f) last fails :=
  Ensures.keep first rest

/-- A value. -/
theorem triple_pure {a : α} (h : ∀ l, pre l → post a l) :
    Triple sound pre (pure a : Exec σ α) post fails :=
  ensures_pure fun s => h s.1

/-- Appending sound events. -/
theorem grown_append {events : List Event} (each : ∀ event ∈ events, sound event) (w : World) :
    Grown sound w (w.append events) := ⟨events, rfl, each⟩

/-- What is idle grows by nothing. -/
theorem grown_idle {w w' : World} (idle : w.Idle w') : Grown sound w w' :=
  ⟨[], idle.log.trans (List.append_nil _).symm, List.forall_mem_nil _⟩

/-- A reading of the clock. -/
theorem grown_tick (w : World) : Grown sound w w.tick := grown_idle (.tick w)

/-- The step of a computation that changes the world only. -/
theorem triple_of_grown {x : Exec σ α} (h : ∀ l w, pre l →
    Grown sound w (after (x (l, w))).2 ∧
    Meets (fun a s => post a s.1) (fun s => fails s.1) (x (l, w))) :
    Triple sound pre x post fails := fun s given => h s.1 s.2 given

/-- Emitting sound events. -/
theorem triple_emit {events : List Event} (each : ∀ l, pre l → ∀ event ∈ events, sound event) :
    Triple sound pre (emit events : Exec σ Unit) (fun _ => pre) fails :=
  triple_of_grown fun l w given => ⟨grown_append (each l given) w, given⟩

/-- A pure computation. -/
theorem triple_lift (x : Except Exn α) (failing : ∀ l, pre l → fails l) :
    Triple sound pre (lift x : Exec σ α) (fun a l => pre l ∧ x = .ok a) fails := by
  refine triple_of_grown fun l w given => ?_
  unfold lift
  cases x with
  | ok a => exact ⟨.refl w, given, rfl⟩
  | error error => exact ⟨.refl w, failing l given⟩

/-- A value that is not used further. -/
theorem triple_lifted (x : Except Exn α) (failing : ∀ l, pre l → fails l) :
    Triple sound pre (lift x : Exec σ α) (fun _ => pre) fails :=
  (triple_lift x failing).strengthen fun _ _ => And.left

/-- Reading the locals. -/
theorem triple_locals : Triple sound pre (locals : Exec σ σ) (fun a l => pre l ∧ a = l) fails :=
  triple_of_grown fun _ w given => ⟨.refl w, given, rfl⟩

/-- What holds of the local data holds of the data that are read. -/
theorem triple_read : Triple sound pre (locals : Exec σ σ) (fun a l => pre l ∧ pre a) fails :=
  triple_locals.strengthen fun _ _ read => ⟨read.1, read.2 ▸ read.1⟩

/-- Updating the locals. -/
theorem triple_update {f : σ → σ} {post : σ → Prop} (kept : ∀ l, pre l → post (f l)) :
    Triple sound pre (update f) (fun _ => post) fails :=
  triple_of_grown fun l w given => ⟨.refl w, kept l given⟩

/-- Reading the clock. -/
theorem triple_now (r : WorkflowRunner) : Triple sound pre (now r : Exec σ ℚ) (fun _ => pre) fails :=
  triple_of_grown fun _ w given => ⟨grown_tick w, given⟩

/-- Raising. -/
theorem triple_raise (code : ErrorCode) (failing : ∀ l, pre l → fails l) :
    Triple sound pre (raise code : Exec σ α) post fails :=
  triple_of_grown fun l w given => ⟨.refl w, failing l given⟩

/-- Checking the deadline. -/
theorem triple_checkDeadline (r : WorkflowRunner) (failing : ∀ l, pre l → fails l) :
    Triple sound pre (checkDeadline r : Exec σ Unit) (fun _ => pre) fails :=
  (triple_now r).bind fun _ => .ite (fun _ => triple_raise _ failing) fun _ => triple_pure fun _ => id

/-- A part that never fails, with a fact of its value. -/
theorem triple_total {x : World → α × World} (fact : α → Prop)
    (h : ∀ w, Grown sound w (x w).2 ∧ fact (x w).1) :
    Triple sound pre (total x : Exec σ α) (fun a l => pre l ∧ fact a) fails :=
  triple_of_grown fun _ w given => ⟨(h w).1, given, (h w).2⟩

/-- A part without the local data. -/
theorem triple_onWorld {x : Exec Unit α}
    (h : Triple sound (fun _ => True) x (fun _ _ => True) fun _ => True)
    (failing : ∀ l, pre l → fails l) :
    Triple sound pre (onWorld x : Exec σ α) (fun _ => pre) fails := by
  refine triple_of_grown fun l w given => ?_
  obtain ⟨grows, -⟩ := h ((), w) trivial
  unfold onWorld
  rcases ran : x ((), w) with ⟨a, t, w'⟩ | ⟨error, t, w'⟩
  all_goals rw [ran] at grows
  · exact ⟨grows, given⟩
  · exact ⟨grows, failing l given⟩

/-- A part with other local data. -/
theorem triple_within {data : τ} {x : Exec τ α} {pre fails : τ → Prop} {post : α → τ → Prop}
    (start : pre data) (h : Triple sound pre x post fails) :
    Triple sound (fun _ => True) (within data x) (fun pair _ => post pair.1 pair.2) fun _ =>
    True := by
  refine triple_of_grown fun _ w _ => ?_
  obtain ⟨grows, meets⟩ := h (data, w) start
  unfold within
  rcases ran : x (data, w) with ⟨a, t, w'⟩ | ⟨error, t, w'⟩
  all_goals rw [ran] at grows meets
  · exact ⟨grows, meets⟩
  · exact ⟨grows, trivial⟩

/-- What a caught part leaves behind. -/
def Caught (post : α → σ → Prop) (fails : σ → Prop) : Except Exn α → σ → Prop
  | .ok a => post a
  | .error _ => fails

/-- Catching a failure. -/
theorem triple_caught {x : Exec σ α} {fails' : σ → Prop} (h : Triple sound pre x post fails) :
    Triple sound pre (caught x) (Caught post fails) fails' := by
  refine triple_of_grown fun l w given => ?_
  obtain ⟨grows, meets⟩ := h (l, w) given
  unfold caught
  rcases ran : x (l, w) with ⟨a, s⟩ | ⟨error, s⟩
  all_goals rw [ran] at grows meets
  · exact ⟨grows, meets⟩
  · exact ⟨grows, meets⟩

/-- Work on the records of a run, about its records. -/
theorem triple_onRecords {x : Exec Records α} {pre fails : Records → Prop} {post : α → Records → Prop}
    (h : Triple sound pre x post fails) :
    Triple sound (fun l : RunLocals => pre l.records) (onRecords x) (fun a l => post a l.records)
      fun l => fails l.records := by
  refine triple_of_grown fun l w given => ?_
  obtain ⟨grows, meets⟩ := h (l.records, w) given
  unfold onRecords
  rcases ran : x (l.records, w) with ⟨a, t, w'⟩ | ⟨error, t, w'⟩
  all_goals rw [ran] at grows meets
  · exact ⟨grows, meets⟩
  · exact ⟨grows, meets⟩

end Computations

/-! ## Steps -/

/-- A promise about boundaries only. -/
def OfBoundaries (sound : Event → Prop) : Prop := ∀ event : Event, event.Plain → sound event

section Flow

variable {sound : Event → Prop} (plain : OfBoundaries sound) {r : WorkflowRunner}
include plain

/-- Nothing is promised of an event that is no boundary. -/
theorem triple_emit_plain {pre fails : σ → Prop} {event : Event} (other : event.Plain) :
    Triple sound pre (emit [event] : Exec σ Unit) (fun _ => pre) fails :=
  triple_emit fun _ _ => List.forall_mem_singleton.mpr (plain event other)

/-- A run that leaves its graph. -/
theorem triple_refuse {pre fails : σ → Prop} {post : α → σ → Prop} (fault : GraphFault)
    (failing : ∀ l, pre l → fails l) : Triple sound pre (refuse fault : Exec σ α) post fails :=
  triple_of_grown fun l w given =>
    ⟨grown_append (List.forall_mem_singleton.mpr (plain _ fun _ _ => Event.noConfusion))
      w, failing l given⟩

/-- Reporting a failure. -/
theorem grown_recordFailure (error : Exn) (w : World) :
    Grown sound w (recordFailure r error w).2 := by
  obtain ⟨failure, w', recorded, -, idle⟩ := recordFailure_spec r error w
  rw [recorded]
  refine (grown_idle idle).trans (grown_append (List.forall_mem_singleton.mpr ?_) w')
  exact plain _ fun _ _ => Event.noConfusion

/-- A run of a flow ends, and without a failure it has a result. -/
structure Ends (record : FlowRun) : Prop where
  status : record.status = .completed ∨ record.status = .needsReview ∨ record.status = .failed
  result : record.status ≠ .failed → record.result.isSome

/-- The status of a flow between its steps. -/
def Underway (l : FlowLocals) : Prop :=
  l.status = .completed ∨ l.status = .needsReview ∨ l.status = .failed

omit plain in
/-- The run of a flow that is underway is a record of its end. -/
theorem Underway.run {l : FlowLocals} (h : Underway l) (elapsed : ℚ) : Ends (l.run elapsed) where
  status := h
  result open_ := by
    have own : (l.run elapsed).result = some l.result := if_neg open_
    rw [own]
    rfl

/-- A collection evaluates sound boundaries only. -/
def CollectionsEvaluate (sound : Event → Prop)
    (collection : CollectionCall → Exec Unit StepRecord) : Prop :=
  ∀ call, Triple sound (fun _ => True) (collection call) (fun _ _ => True) fun _ => True

/-- An execution of a flow evaluates sound boundaries only, and ends. -/
def RunsEvaluate (sound : Event → Prop)
    (run : FlowCall → World → (FlowRun × List DecisionIssue) × World) : Prop :=
  ∀ call w, Grown sound w (run call w).2 ∧ Ends (run call w).1.1

/-- A part of a flow that keeps it underway. -/
abbrev Advances (sound : Event → Prop) (x : Exec FlowLocals α) : Prop :=
  Triple sound Underway x (fun _ => Underway) fun _ => True

variable {collection : CollectionCall → Exec Unit StepRecord} {call : FlowCall} {step : StepPlan}

omit plain in
/-- A pure computation in a flow. -/
theorem advances_lift (x : Except Exn α) : Advances sound (lift x) :=
  triple_lifted x fun _ _ => trivial

omit plain in
/-- An update that keeps a flow underway. -/
theorem advances_update {f : FlowLocals → FlowLocals} (kept : ∀ l, Underway l → Underway (f l)) :
    Advances sound (update f) := triple_update kept

omit plain in
/-- Reading the clock in a flow. -/
theorem advances_now : Advances sound (now r : Exec FlowLocals ℚ) := triple_now r

omit plain in
/-- Reading the locals of a flow. -/
theorem advances_locals : Advances sound (locals : Exec FlowLocals FlowLocals) := by
  have read : Triple sound Underway locals (fun l own => Underway own ∧ l = own) fun _ => True :=
    triple_locals
  exact read.strengthen fun _ _ => And.left

omit plain in
/-- Checking the deadline in a flow. -/
theorem advances_checkDeadline : Advances sound (checkDeadline r) :=
  triple_checkDeadline r fun _ _ => trivial

/-- Events of a flow that are not about boundaries. -/
theorem advances_emit {events : List Event} (each : ∀ event ∈ events, event.Plain) :
    Advances sound (emit events) := triple_emit fun _ _ event mem => plain event (each event mem)

/-- Calling the executor. -/
theorem advances_callExecutor (inputs : Object) :
    Advances sound (callExecutor r call step inputs) := by
  refine triple_of_grown fun l w given => ⟨⟨[_], rfl, ?_⟩, given⟩
  exact List.forall_mem_singleton.mpr (plain _ fun _ _ => Event.noConfusion)

omit plain in
/-- Settling what was executed. -/
theorem advances_settle (executed : Executed) : Advances sound (settle r executed) := by
  unfold settle
  split
  · exact triple_raise _ fun _ _ => trivial
  · refine .ite (fun _ => ?_) fun _ => advances_lift _
    exact advances_now.bind fun _ => triple_raise _ fun _ _ => trivial
  · exact advances_lift _
  · exact triple_pure fun _ => id

/-- A step that calls the executor. -/
theorem advances_executeOperation (inputs : Object) :
    Advances sound (executeOperation r call step inputs) := by
  refine (advances_callExecutor plain inputs).bind fun executed =>
      (advances_settle executed).bind fun _ =>
    advances_checkDeadline.bind fun _ => (advances_lift _).bind fun accepted => ?_
  obtain ⟨outcome, value⟩ := accepted
  refine advances_now.bind fun ended => (advances_update fun l open_ => ?_).bind fun _ =>
    triple_pure fun _ => id
  show Underway (FlowLocals.complete _ _ _ _ _ l)
  unfold Underway FlowLocals.complete
  dsimp only
  split_ifs with review
  · exact .inr (.inl rfl)
  · exact open_

omit plain in
/-- A collection that stops its flow failed or needs a review. -/
theorem Underway.collect {l : FlowLocals} (open_ : Underway l)
    (stepId : Option String) (name : String)
    (record : StepRecord) : Underway (FlowLocals.collect stepId name record l) := by
  unfold Underway FlowLocals.collect
  dsimp only
  split_ifs with stops
  · exact stops.elim (fun failed => .inr (.inr failed)) fun review => .inr (.inl review)
  · exact open_

/-- A step of any kind. -/
theorem advances_executeKind (collections : CollectionsEvaluate sound collection) (inputs : Object) :
    Advances sound (executeKind r collection call step inputs) := by
  unfold executeKind
  split
  case h_1 items flows maxItems kind =>
    have called : Triple sound Underway
        (onWorld (collection ⟨flows, maxItems, inputs, call.envelope, call.collectionDepth⟩))
        (fun _ => Underway) fun _ => True := triple_onWorld (collections _) fun _ _ => trivial
    exact called.bind fun record =>
      (advances_update fun l open_ => open_.collect call.stepId step.name record).bind fun _ =>
        triple_pure fun _ => id
  all_goals exact advances_executeOperation plain inputs

/-- Reserving a step. -/
theorem advances_reserveStep : Advances sound (reserveStep r) := by
  refine triple_of_grown fun l w given => ?_
  unfold reserveStep
  split
  · exact ⟨grown_append (List.forall_mem_singleton.mpr (plain _ fun _ _ => Event.noConfusion)) w,
      trivial⟩
  · exact ⟨⟨[], (List.append_nil _).symm, List.forall_mem_nil _⟩, given⟩

/-- One step. -/
theorem advances_executeStep (collections : CollectionsEvaluate sound collection) :
    Advances sound (executeStep r collection call step) := by
  have skipped : ∀ event ∈ [Event.conditionEvaluated ("steps." ++ step.name ++ ".when") false,
      .stepSkipped call.flow.name step.name], event.Plain :=
    List.forall_mem_cons.mpr ⟨fun _ _ => Event.noConfusion,
      List.forall_mem_singleton.mpr fun _ _ => Event.noConfusion⟩
  have started (guarded : Option Bool) : ∀ event ∈ (Event.stepStarted call.flow.name step.name ::
      if guarded = some true then [.conditionEvaluated ("steps." ++ step.name ++ ".when") true]
      else []),
      event.Plain := by
    refine List.forall_mem_cons.mpr ⟨fun _ _ => Event.noConfusion, ?_⟩
    split
    · exact List.forall_mem_singleton.mpr fun _ _ => Event.noConfusion
    · exact List.forall_mem_nil _
  have begin_ : Advances sound (startStep r step) :=
    advances_now.bind fun _ => advances_update fun _ => id
  refine advances_checkDeadline.bind fun _ => advances_locals.bind fun l =>
    (advances_lift _).bind fun guarded => .ite (fun _ => ?_) fun _ => ?_
  · exact (advances_emit plain skipped).bind fun _ => triple_pure fun _ => id
  · exact (advances_reserveStep plain).bind fun _ => begin_.bind fun _ =>
      (advances_emit plain (started guarded)).bind fun _ => advances_locals.bind fun l =>
        (advances_lift _).bind fun inputs => advances_executeKind plain collections inputs

/-- The steps of a flow. -/
theorem advances_executeSteps (collections : CollectionsEvaluate sound collection)
    (steps : List StepPlan) :
    Advances sound (executeSteps r collection call steps) := by
  induction steps with
  | nil => exact triple_pure fun _ => id
  | cons step rest ih =>
    refine (advances_executeStep plain collections).bind fun control => ?_
    rcases control with _ | _
    · exact ih
    · exact triple_pure fun _ => id

/-- The steps of a flow, with their failure caught. -/
theorem advances_runSteps (collections : CollectionsEvaluate sound collection)
    (steps : List StepPlan) :
    Advances sound (runSteps r collection call steps) :=
  (advances_executeSteps plain collections steps).bind fun _ => advances_locals.bind fun _ =>
    (advances_lift _).bind fun _ => advances_update fun _ => id

/-- A whole flow ends underway, with sound events. -/
theorem runFlow_ends (collections : CollectionsEvaluate sound collection) (started : ℚ) (w : World) :
    Grown sound w (runFlow r collection call started w).2 ∧
      Underway (runFlow r collection call started w).1 := by
  obtain ⟨grows, meets⟩ := advances_runSteps plain collections call.steps
    (call.init started, w) (.inl rfl)
  unfold runFlow
  rcases ran : runSteps r collection call call.steps
    (call.init started, w) with ⟨_, l, w'⟩ | ⟨error, l, w'⟩
  all_goals rw [ran] at grows meets
  · exact ⟨grows, meets⟩
  · have recorded : Grown sound w (recordFailure r error w').2 :=
      Grows.trans grows (grown_recordFailure plain error w')
    unfold failFlow
    dsimp only
    split
    · exact ⟨recorded, .inr (.inr rfl)⟩
    · exact ⟨recorded.trans (grown_tick _), .inr (.inr rfl)⟩

/-- Every run of a flow has sound events and is a record of its end. -/
theorem executeFlowWith_evaluates (collections : CollectionsEvaluate sound collection) :
    RunsEvaluate sound (executeFlowWith r collection) := by
  intro call w
  obtain ⟨grows, ends⟩ := @runFlow_ends sound plain r collection call collections
    (r.services.clock w.reads) w.tick
  exact ⟨((grown_tick w).trans grows).trans (grown_tick _), ends.run _⟩

end Flow

/-! ## Runs of flows -/

/-- The execution of a whole flow of the workflow on a validated input. -/
structure ValidCall (r : WorkflowRunner) (call : FlowCall) : Prop where
  known : r.plan.flow? call.flow.name = some call.flow
  whole : call.stepId = none
  input : ∃ inputs, call.envelope.payload = .obj inputs ∧
    r.services.validateFlowInput call.flow.name (.obj inputs) = .ok ()

/-- A call whose input was accepted is valid. -/
theorem validCall_of_withPayload {r : WorkflowRunner}
    {envelope received : AcceptedEnvelope} {inputs : Object}
    {call : FlowCall} (known : r.plan.flow? call.flow.name = some call.flow)
    (whole : call.stepId = none)
    (valid : r.services.validateFlowInput call.flow.name (.obj inputs) = .ok ())
    (accepted : envelope.withPayload (.obj inputs) = .ok received) (same : call.envelope = received) :
    ValidCall r call := by
  refine ⟨known, whole, inputs, ?_, valid⟩
  unfold AcceptedEnvelope.withPayload at accepted
  split_ifs at accepted
  · rw [same, ← Except.ok.inj accepted]
  · cases accepted

/-- A fact about the runs of each flow. -/
abbrev RunFact := FlowPlan → FlowRun → Prop

/-- A run of a flow that has the fact unless it failed. -/
structure Returned (fact : RunFact) (flow : FlowPlan) (record : FlowRun) : Prop where
  ends : Ends record
  consistent : record.Consistent
  fact : record.status ≠ .failed → fact flow record

/-- The executions of flows evaluate sound boundaries only, and those of valid calls have a fact. -/
def RunsReturn (sound : Event → Prop) (fact : RunFact) (r : WorkflowRunner)
    (run : FlowCall → World → (FlowRun × List DecisionIssue) × World) : Prop :=
  ∀ call w, Grown sound w (run call w).2 ∧
    (ValidCall r call → Returned fact call.flow (run call w).1.1)

/-- Every run in a record has a fact. -/
structure RecordHolds (fact : RunFact) (flow : FlowPlan) (record : FlowRecord) : Prop where
  run : fact flow record.toFlowRun
  attempts : ∀ attempt ∈ record.attempts, fact flow attempt

/-- Every record of a flow of the plan has its facts. -/
def Holding (plan : WorkflowPlan) (fact : RunFact) (records : Records) : Prop :=
  ∀ flow, plan.flow? flow.name = some flow → ∀ record, records.lookup flow.name = some record →
    RecordHolds fact flow record

section Holding

variable {plan : WorkflowPlan} {fact : RunFact} {records : Records} {flow : FlowPlan}

/-- No records have every fact. -/
theorem holding_nil : Holding plan fact [] := fun _ _ _ found => by cases found

/-- Recording a flow. -/
theorem Holding.set (h : Holding plan fact records) (known : plan.flow? flow.name = some flow)
    {record : FlowRecord} (own : RecordHolds fact flow record) :
    Holding plan fact (Dict.set flow.name record records) := by
  intro other known' record' found
  by_cases same : other.name = flow.name
  · rw [same] at known' found
    obtain rfl := Option.some.inj (known.symm.trans known')
    rw [Dict.lookup_set_self] at found
    obtain rfl := Option.some.inj found
    exact own
  · rw [Dict.lookup_set_of_ne same] at found
    exact h other known' record' found

/-- Recording an attempt. -/
theorem Holding.setAttempt (h : Holding plan fact records) (known : plan.flow? flow.name = some flow)
    {record : FlowRun} (own : fact flow record) {attempts : List FlowRun}
    (earlier : ∀ attempt ∈ attempts, fact flow attempt) :
    Holding plan fact (setAttempt flow.name record attempts records) :=
  h.set known ⟨own, List.forall_mem_append.mpr ⟨earlier, List.forall_mem_singleton.mpr own⟩⟩

/-- Recording a retry run. -/
theorem Holding.setRetry (h : Holding plan fact records) (known : plan.flow? flow.name = some flow)
    {record : FlowRun} (own : fact flow record) :
    Holding plan fact (setRetry flow.name record records) := by
  refine h.setAttempt known own fun attempt mem => ?_
  unfold retryRuns at mem
  cases found : records.lookup flow.name with
  | none =>
    rw [found] at mem
    cases mem
  | some record =>
    rw [found] at mem
    exact (h flow known record found).attempts attempt mem

end Holding

/-! ## Repeats -/

/-- The last run of the flow completed with a result, and its runs are recorded. -/
structure Provides (record : FlowRecord) : Prop where
  status : record.status = .completed
  result : record.result.isSome
  attempts : record.attempts ≠ []

/-- A flow has a record that provides its output. -/
def Provided (records : Records) (name : String) : Prop :=
  ∃ record, records.lookup name = some record ∧ Provides record

/-- A completed attempt provides the output. -/
theorem provided_setAttempt (name : String) {record : FlowRun} (ends : Ends record)
    (attempts : List FlowRun)
    (records : Records) (completed : record.status = .completed) :
    Provided (setAttempt name record attempts records) name := by
  refine ⟨_, Dict.lookup_set_self _ _ _, completed, ends.result ?_, List.concat_ne_nil _ _⟩
  rw [completed]
  exact Status.noConfusion

/-- A completed retry run provides the output. -/
theorem provided_setRetry (name : String) {record : FlowRun} (ends : Ends record) (records : Records)
    (completed : record.status = .completed) : Provided (setRetry name record records) name :=
  provided_setAttempt name ends (retryRuns name records) records completed

/-- A retry run of another flow keeps what is provided. -/
theorem Provided.setRetry {records : Records} {name other : String} (h : Provided records name)
    (ne : name ≠ other) (record : FlowRun) : Provided (setRetry other record records) name := by
  obtain ⟨own, known, provides⟩ := h
  exact ⟨own, (Dict.lookup_set_of_ne ne _ _).trans known, provides⟩

/-- After an attempt that did not fail. -/
def AttemptRecorded (inv : Records → Prop) (name : String) (record : FlowRun) (records : Records) :
    Prop :=
  record.status ≠ .failed → inv records ∧ (record.status = .completed → Provided records name)

/-- After a completed attempt. -/
def Attempted (inv : Records → Prop) (name : String) (records : Records) : Prop :=
  inv records ∧ Provided records name

/-- After a completed attempt and a completed retry. -/
def AfterRetry (inv : Records → Prop) (name : String) (rep : RepeatPlan) (records : Records) : Prop :=
  Attempted inv name records ∧ ∀ retry, rep.retryFlow = some retry → Provided records retry

/-- What is promised of the boundaries of a repeat, over records with an invariant that the runs of its retry
flow keep: each may rely on the last completed attempt, the next one also on a completed retry. -/
structure Attends (sound : Event → Prop) (plan : WorkflowPlan) (fact : RunFact) (inv : Records → Prop)
    (flow : FlowPlan) (rep : RepeatPlan) : Prop where
  apart : rep.retryFlow ≠ some flow.name
  kept : ∀ retry, rep.retryFlow = some retry.name → plan.flow? retry.name = some retry →
    ∀ records run, fact retry run → inv records → inv (setRetry retry.name run records)
  retryInput : ∀ records, Attempted inv flow.name records →
    sound (.boundary (.retryInput flow.name) records)
  nextInput : ∀ records, AfterRetry inv flow.name rep records →
    sound (.boundary (.nextInput flow.name) records)

/-- A decision changes the status of a completed run only, for a review. -/
def RepeatDecision.Reviews (record : FlowRun) : RepeatDecision → Prop
  | .stopped _ _ status _ => status = none ∨ status = some .needsReview ∧ record.status = .completed
  | .again _ _ => True

/-- Neither the run nor what came after it failed. -/
def RepeatDecision.Clear (record : FlowRun) : RepeatDecision → Prop
  | .stopped _ _ _ failure => record.status ≠ .failed ∧ failure = none
  | .again _ _ => True

/-- A decision about a run: the records keep their invariant unless it reports a failure, and the next
attempt follows a run that did not fail, on a validated input. -/
structure Concludes (r : WorkflowRunner) (inv : Records → Prop) (name : String) (record : FlowRun)
    (decision : RepeatDecision) (records : Records) : Prop where
  reviews : decision.Reviews record
  kept : decision.Clear record → inv records
  again : ∀ issues inputs, decision = .again issues inputs →
    record.status ≠ .failed ∧ r.services.validateFlowInput name (.obj inputs) = .ok ()

/-- A retry of a completed attempt, after which the repeat goes on or is decided. -/
def RetryDecided (r : WorkflowRunner) (inv : Records → Prop) (name : String) (attempted : FlowRun)
    (onward : Records → Prop) (decision : Option RepeatDecision) (records : Records) : Prop :=
  match decision with
  | none => onward records
  | some decision => Concludes r inv name attempted decision records

/-- After a run of the retry flow that did not fail. -/
def RetryRecorded (inv : Records → Prop) (name retry : String) (record : FlowRun)
    (records : Records) : Prop :=
  record.status ≠ .failed → Attempted inv name records ∧
    (record.status = .completed → Provided records retry)

section Repeat

variable {sound : Event → Prop} (plain : OfBoundaries sound) {r : WorkflowRunner} {fact : RunFact}
  {run : FlowCall → World → (FlowRun × List DecisionIssue) × World} {inv : Records → Prop}
  {flow : FlowPlan} {rep : RepeatPlan} {scope : RepeatScope} {pre : Records → Prop}

/-- A repeat that stops. -/
theorem decides_stopped {record : FlowRun} {stop : RepeatStop} {issues : List DecisionIssue}
    {status : Option Status} {failure : Option Failure} {records : Records} {name : String}
    (reviews : RepeatDecision.Reviews record (.stopped stop issues status failure))
    (kept : record.status ≠ .failed → failure = none → inv records) :
    Concludes r inv name record (.stopped stop issues status failure) records :=
  ⟨reviews, fun clear => kept clear.1 clear.2, fun _ _ same => by cases same⟩

include plain

/-- Deciding a condition. -/
theorem triple_holds (location : String) (condition : ConditionPlan) (context : Json) :
    Triple sound pre (holds r location condition context) (fun _ => pre) fun _ => True :=
  (triple_lifted _ fun _ _ => trivial).bind fun _ =>
    (triple_emit_plain plain fun _ _ => Event.noConfusion).bind fun _ => triple_pure fun _ => id

omit plain in
/-- The input of a flow is validated. -/
theorem triple_flowInput {place : Boundary}
    (promised : ∀ records, pre records → sound (.boundary place records))
    (name : String) (bindings : Bindings) (envelope : AcceptedEnvelope) :
    Triple sound pre (flowInput r place name bindings envelope)
      (fun inputs records => pre records ∧ r.services.validateFlowInput name (.obj inputs) = .ok ())
      fun _ => True := by
  refine triple_read.keep fun records given => ?_
  exact (triple_emit fun _ _ => List.forall_mem_singleton.mpr (promised records given)).bind fun _ =>
    (triple_lifted _ fun _ _ => trivial).bind fun inputs =>
      (triple_lift _ fun _ _ => trivial).bind fun _ => triple_pure fun _ => id

/-- Reporting a failure. -/
theorem triple_recordFailure {pre fails : σ → Prop} (error : Exn) :
    Triple sound pre (total (recordFailure r error) : Exec σ Failure) (fun _ => pre) fails := by
  exact (triple_total (fun _ => True) fun w => ⟨grown_recordFailure plain error w,
      trivial⟩).strengthen
    fun _ _ => And.left

omit plain in
/-- Running a flow on a valid call. -/
theorem triple_run {pre fails : σ → Prop} (runs : RunsReturn sound fact r run) {call : FlowCall}
    (valid : ValidCall r call) :
    Triple sound pre (total (run call) : Exec σ (FlowRun × List DecisionIssue))
      (fun ran l => pre l ∧ Returned fact call.flow ran.1) fails :=
  triple_total (fun ran : FlowRun × List DecisionIssue => Returned fact call.flow ran.1)
    fun w => ⟨(runs call w).1, (runs call w).2 valid⟩

omit plain in
/-- An envelope with a validated input. -/
theorem triple_received {pre : σ → Prop} (envelope : AcceptedEnvelope) (inputs : Object) :
    Triple sound pre (lift (envelope.withPayload (.obj inputs)) : Exec σ AcceptedEnvelope)
      (fun received l => pre l ∧ envelope.withPayload (.obj inputs) = .ok received) fun _ => True :=
  triple_lift _ fun _ _ => trivial

variable {attempted : FlowRun} (completed : attempted.status = .completed)
include completed

/-- What is decided after a retry run. -/
theorem triple_afterRetry (issues : List DecisionIssue) {retry : FlowPlan} {record : FlowRun}
    (returned : Returned fact retry record) (retryIssues : List DecisionIssue) :
    Triple sound (RetryRecorded inv flow.name retry.name record)
      (afterRetry r rep scope issues record retryIssues)
      (RetryDecided r inv flow.name attempted fun records =>
        Attempted inv flow.name records ∧ Provided records retry.name) fun _ => True := by
  refine .ite (fun fails => triple_pure fun _ _ => ?_) fun unfailed =>
    .ite (fun _ => triple_pure fun _ given => ?_) fun unreviewed => ?_
  · refine decides_stopped (.inl rfl) fun _ absent => ?_
    have present := returned.consistent.error.mp fails
    rw [absent] at present
    cases present
  · exact decides_stopped (.inr ⟨rfl, completed⟩) fun _ _ => (given unfailed).1.1
  -- What is neither a failure nor a review has completed, so the next attempt may rely on it.
  have retried : record.status = .completed :=
    returned.ends.status.resolve_right (not_or.mpr ⟨unreviewed, unfailed⟩)
  have onward {records : Records} (given : RetryRecorded inv flow.name retry.name record records) :
      Attempted inv flow.name records ∧ Provided records retry.name :=
    ⟨(given unfailed).1, (given unfailed).2 retried⟩
  split
  · exact triple_pure fun _ given => onward given
  · have read : Triple sound (RetryRecorded inv flow.name retry.name record) locals
        (fun _ => RetryRecorded inv flow.name retry.name record) fun _ => True :=
      triple_locals.strengthen fun _ _ => And.left
    refine read.bind fun records => (triple_holds plain _ _ _).bind fun met => ?_
    exact .ite (fun _ => triple_pure fun _ given => onward given) fun _ =>
      triple_pure fun _ given => decides_stopped (.inl rfl) fun _ _ => (onward given).1.1

/-- After a retry the repeat goes on only with a completed run of the retry flow. -/
theorem triple_runRetry (runs : RunsReturn sound fact r run)
    (attends : Attends sound r.plan fact inv flow rep)
    (attempt : ℕ) (issues : List DecisionIssue) :
    Triple sound (Attempted inv flow.name) (runRetry r run flow rep scope attempt issues)
      (RetryDecided r inv flow.name attempted (AfterRetry inv flow.name rep)) fun _ => True := by
  unfold runRetry
  split
  case h_1 once =>
    refine triple_pure fun s given => ⟨given, fun name retries => ?_⟩
    rw [once] at retries
    cases retries
  case h_2 name retries =>
    have ne : flow.name ≠ name := fun same => attends.apart (same ▸ retries)
    split
    case h_1 =>
      have failed : Triple sound (Attempted inv flow.name)
          (lift (.error .other) : Exec Records (Option RepeatDecision))
          (fun decision records => Attempted inv flow.name records ∧
            Except.error Exn.other = .ok decision)
          fun _ => True := triple_lift _ fun _ _ => trivial
      refine failed.strengthen fun decision s given => ?_
      cases given.2
    case h_2 retry known =>
      obtain rfl := WorkflowPlan.flow?_name known
      refine (triple_caught (triple_flowInput attends.retryInput _ _ _)).bind fun bound => ?_
      rcases bound with error | inputs
      -- the input of the retry flow failed: the failure is its record, and the repeat stops
      · refine (triple_recordFailure plain error).bind fun failure => ?_
        have recorded : Triple sound (fun _ => True)
            (update (setRetry retry.name (failedRetry retry failure)))
            (fun _ _ => True) fun _ => True := triple_update fun _ => id
        exact recorded.bind fun _ => triple_pure fun _ _ =>
          decides_stopped (.inl rfl) fun _ absent => by cases absent
      -- the retry flow runs on a valid input, and its record replaces the earlier one
      · refine .given (c := r.services.validateFlowInput retry.name (.obj inputs) = .ok ())
          (fun _ given => given.2) fun valid => Triple.weaken ?_ fun _ given => given.1
        refine (triple_emit_plain plain fun _ _ => Event.noConfusion).bind fun _ =>
          (triple_received scope.envelope inputs).keep fun envelope accepted => ?_
        have call : ValidCall r (retryCall scope retry envelope attempt) :=
          validCall_of_withPayload known rfl valid accepted rfl
        refine (triple_run runs call).keep fun ran returned => ?_
        obtain ⟨record, retryIssues⟩ := ran
        have recorded : Triple sound (Attempted inv flow.name) (update (setRetry retry.name record))
            (fun _ => RetryRecorded inv flow.name retry.name record) fun _ => True :=
          triple_update fun records given unfailed =>
            ⟨⟨attends.kept retry retries known records record (returned.fact unfailed) given.1,
              given.2.setRetry ne record⟩, provided_setRetry retry.name returned.ends records⟩
        have decides : Triple sound (RetryRecorded inv flow.name retry.name record)
            (afterRetry r rep scope issues record retryIssues)
            (RetryDecided r inv flow.name attempted fun records =>
              Attempted inv flow.name records ∧ Provided records retry.name) fun _ => True :=
          triple_afterRetry plain completed issues returned retryIssues
        refine recorded.bind fun _ => decides.strengthen fun decision s decided => ?_
        rcases decision with _ | decision
        · refine ⟨decided.1, fun name same => ?_⟩
          obtain rfl := Option.some.inj (retries.symm.trans same)
          exact decided.2
        · exact decided

omit plain completed in
/-- The next attempt may rely on the last one and on a completed retry; its input is validated. -/
theorem triple_nextInputs (attends : Attends sound r.plan fact inv flow rep) :
    Triple sound (AfterRetry inv flow.name rep) (nextInputs r flow rep scope)
      (fun inputs records => inv records ∧
        r.services.validateFlowInput flow.name (.obj inputs) = .ok ())
      fun _ => True := by
  have checked : Triple sound (AfterRetry inv flow.name rep) (checkDeadline r)
      (fun _ => AfterRetry inv flow.name rep) fun _ => True :=
        triple_checkDeadline r fun _ _ => trivial
  refine checked.bind fun _ => ?_
  split
  · have bound : Triple sound (AfterRetry inv flow.name rep)
        (flowInput r (.nextInput flow.name) flow.name
        (overridden flow.input rep.retryInput) scope.envelope) (fun inputs records =>
          AfterRetry inv flow.name rep records ∧
            r.services.validateFlowInput flow.name (.obj inputs) = .ok ()) fun _ => True :=
      triple_flowInput attends.nextInput _ _ _
    exact bound.strengthen fun _ _ given => ⟨given.1.1.1, given.2⟩
  · refine triple_read.keep fun records given => ?_
    have begins : Triple sound (AfterRetry inv flow.name rep)
        (emit [.boundary (.nextInput flow.name) records])
        (fun _ => inv) fun _ => True :=
      (triple_emit fun _ _ => List.forall_mem_singleton.mpr
          (attends.nextInput records given)).strengthen
        fun _ _ given => given.1.1
    refine begins.bind fun _ => (triple_lifted _ fun _ _ => trivial).bind fun _ => ?_
    exact (triple_lift _ fun _ _ => trivial).bind fun _ => triple_pure fun _ => id

omit completed in
/-- A repeat evaluates sound boundaries only. -/
theorem triple_repeatDecision (runs : RunsReturn sound fact r run)
    (attends : Attends sound r.plan fact inv flow rep) {record : FlowRun}
    (ends : Ends record) (attempt : ℕ)
    (issues : List DecisionIssue) :
    Triple sound (AttemptRecorded inv flow.name record)
      (repeatDecision r run flow rep scope record attempt issues)
      (Concludes r inv flow.name record) fun _ => True := by
  refine .ite (fun fails => triple_pure fun _ given => decides_stopped
      (.inl rfl) fun open_ _ => absurd fails open_)
    fun unfailed => .ite (fun _ => triple_pure fun _ given => decides_stopped (.inl rfl) fun _ _ =>
      (given unfailed).1) fun unreviewed => ?_
  have completed : record.status = .completed :=
    ends.status.resolve_right (not_or.mpr ⟨unreviewed, unfailed⟩)
  have read : Triple sound (Attempted inv flow.name) locals
      (fun _ => Attempted inv flow.name) fun _ => True :=
    triple_locals.strengthen fun _ _ => And.left
  have stops {stop : RepeatStop} : ∀ records, Attempted inv flow.name records →
      Concludes r inv flow.name record (.stopped stop issues none none) records :=
    fun _ given => decides_stopped (.inl rfl) fun _ _ => given.1
  refine (read.weaken fun _ given => ⟨(given unfailed).1,
      (given unfailed).2 completed⟩).bind fun records =>
    (triple_holds plain _ _ _).bind fun met => .ite (fun _ => triple_pure stops) fun _ =>
      .ite (fun _ => triple_pure stops) fun _ => ?_
  refine (triple_runRetry plain completed runs attends attempt issues).bind fun decision => ?_
  rcases decision with _ | decision
  · refine (triple_caught (triple_nextInputs attends)).bind fun next => ?_
    rcases next with error | inputs
    · exact (triple_recordFailure plain error).bind fun _ => triple_pure fun _ _ =>
        decides_stopped (.inl rfl) fun _ absent => by cases absent
    · refine triple_pure fun _ given => ⟨trivial, fun _ => given.1, fun _ _ same => ?_⟩
      obtain ⟨-, rfl⟩ := RepeatDecision.again.inj same
      exact ⟨unfailed, given.2⟩
  · exact triple_pure fun _ => id

end Repeat

/-! ## Collections -/

/-- The repeats of callable flows attend to the records of their items. -/
def ItemsAttend (sound : Event → Prop) (plan : WorkflowPlan) (fact : RunFact) : Prop :=
  ∀ flow ∈ plan.flows, flow.callable = true → ∀ rep, flow.repeatPlan = some rep →
    Attends sound plan fact (Holding plan fact) flow rep

/-- An item of a callable flow with a validated input. -/
structure ItemReady (r : WorkflowRunner) (item : Item) : Prop where
  known : r.plan.flow? item.flow.name = some item.flow
  callable : item.flow.callable = true
  valid : r.services.validateFlowInput item.flow.name (.obj item.payload) = .ok ()

section Collection

variable {sound : Event → Prop} (plain : OfBoundaries sound) {r : WorkflowRunner} {fact : RunFact}
  (attend : ItemsAttend sound r.plan fact)
  {run : FlowCall → World → (FlowRun × List DecisionIssue) × World}
    (runs : RunsReturn sound fact r run)

/-- A part of a collection. -/
abbrev Collects (sound : Event → Prop) (x : Exec Unit α) (post : α → Prop) : Prop :=
  Triple sound (fun _ => True) x (fun a _ => post a) fun _ => True

section Rules

include plain

/-- The accepted items are ready to run. -/
theorem collects_validateItems (flows seen : List String) (raw : List Json) :
    Collects sound (validateItems r flows seen raw) fun items =>
    ∀ item ∈ items, ItemReady r item := by
  induction raw generalizing seen with
  | nil => exact triple_pure fun _ _ => List.forall_mem_nil _
  | cons item rest ih =>
    have checked : Collects sound (checkDeadline r) fun _ => True :=
      triple_checkDeadline r fun _ => id
    refine checked.bind fun _ => ?_
    split
    case h_1 => exact triple_raise _ fun _ => id
    case h_2 id name payload parts =>
      refine .ite (fun _ => triple_raise _ fun _ _ => trivial) fun accepted => ?_
      split
      case h_1 => exact triple_refuse plain _ fun _ _ => trivial
      case h_2 flow known =>
        refine .ite (fun _ => triple_refuse plain _ fun _ _ => trivial) fun callable => ?_
        obtain rfl := WorkflowPlan.flow?_name known
        have valid : Collects sound (lift (r.services.validateFlowInput flow.name (.obj payload)))
            fun checked => r.services.validateFlowInput flow.name (.obj payload) = .ok checked :=
          (triple_lift _ fun _ _ => trivial).strengthen fun _ _ => And.right
        refine valid.bind fun _ => .given (fun _ given => given) fun valid => ?_
        refine Triple.bind (Triple.weaken (ih (_ :: seen)) fun _ _ => trivial) fun others =>
          triple_pure fun _ given =>
            List.forall_mem_cons.mpr ⟨⟨known, by simpa using callable, valid⟩, given⟩

include attend runs

/-- The attempts of one item. -/
theorem collects_runItemAttempts {rep : RepeatPlan} {item : Item} {scope : RepeatScope}
    (ready : ItemReady r item) (repeats : item.flow.repeatPlan = some rep) (remaining : ℕ)
    {attempts : List FlowRun} (earlier : ∀ attempt ∈ attempts, fact item.flow attempt)
    {records : Records}
    (holding : Holding r.plan fact records) {inputs : Object}
    (valid : r.services.validateFlowInput item.flow.name (.obj inputs) = .ok ()) :
    Collects sound (runItemAttempts r run rep item scope remaining attempts records inputs)
      fun _ => True := by
  induction remaining generalizing attempts records inputs with
  | zero => exact triple_refuse plain _ fun _ => id
  | succ remaining ih =>
    refine (triple_emit_plain plain fun _ _ => Event.noConfusion).bind fun _ =>
      (triple_received scope.envelope inputs).keep fun envelope accepted => ?_
    have call : ValidCall r (itemCall item scope.collectionDepth envelope (attempts.length + 1)) :=
      validCall_of_withPayload ready.known rfl valid accepted rfl
    refine (triple_run runs call).keep fun ran returned => ?_
    obtain ⟨record, issues⟩ := ran
    have attends := attend item.flow (WorkflowPlan.flow?_mem ready.known) ready.callable rep repeats
    have decides := @triple_repeatDecision sound plain r fact run (Holding r.plan fact)
        item.flow rep scope runs
      attends record returned.ends (attempts.length + 1) issues
    -- The repeat of an item records its attempts apart from those of the workflow.
    have own : AttemptRecorded (Holding r.plan fact) item.flow.name record
        (setAttempt item.flow.name record attempts records) := fun unfailed =>
      ⟨holding.setAttempt ready.known (returned.fact unfailed) earlier,
        provided_setAttempt item.flow.name returned.ends attempts records⟩
    refine ((triple_within own decides).weaken fun _ _ => trivial).bind fun decided => ?_
    obtain ⟨decision, records⟩ := decided
    rcases decision with stop | ⟨issues, inputs⟩
    · exact (triple_emit_plain plain fun _ _ => Event.noConfusion).bind fun _ =>
        triple_pure fun _ _ => trivial
    · refine .given (fun _ => id) fun decides => ?_
      obtain ⟨unfailed, valid⟩ := decides.again issues inputs rfl
      have attempts_ : ∀ attempt ∈ attempts ++ [record], fact item.flow attempt :=
        List.forall_mem_append.mpr ⟨earlier, List.forall_mem_singleton.mpr (returned.fact unfailed)⟩
      have kept : Holding r.plan fact (Dict.set item.flow.name
          { toFlowRun := record, attempts := attempts ++ [record] } records) :=
        (decides.kept trivial).set ready.known ⟨returned.fact unfailed, attempts_⟩
      exact Triple.weaken (ih attempts_ kept valid) fun _ _ => trivial

/-- One item. -/
theorem collects_runItem (call : CollectionCall) {item : Item} (ready : ItemReady r item) :
    Collects sound (runItem r run call item) fun _ => True := by
  refine (triple_received call.envelope item.payload).keep fun envelope accepted => ?_
  split
  case h_1 rep repeats =>
    exact collects_runItemAttempts plain attend runs ready repeats _ (List.forall_mem_nil _)
      holding_nil ready.valid
  case h_2 =>
    have valid : ValidCall r (itemCall item (call.collectionDepth + 1) envelope 1) :=
      validCall_of_withPayload ready.known rfl ready.valid accepted rfl
    exact (triple_emit_plain plain fun _ _ => Event.noConfusion).bind fun _ =>
      (triple_run runs valid).bind fun _ => triple_pure fun _ _ => trivial

/-- The items of a collection. -/
theorem collects_runItems (call : CollectionCall) (usage : Usage) (status : Status)
    {items : List Item}
    (ready : ∀ item ∈ items, ItemReady r item) :
    Collects sound (runItems r run call usage status items) fun _ => True := by
  induction items generalizing usage status with
  | nil => exact triple_pure fun _ => id
  | cons item rest ih =>
    refine (collects_runItem plain attend runs call (ready item List.mem_cons_self)).bind fun ran =>
      .ite (fun _ => triple_pure fun _ => id) fun _ => ?_
    refine (ih _ _ fun other mem => ready other (List.mem_cons_of_mem _ mem)).bind fun _ =>
      triple_pure fun _ => id

/-- A whole collection. -/
theorem executeCollection_evaluates : CollectionsEvaluate sound (executeCollection r run) := by
  intro call
  have read : Collects sound (now r) fun _ => True := triple_now r
  refine read.bind fun _ => .ite (fun _ => triple_refuse plain _ fun _ => id) fun _ => ?_
  split
  case h_1 raw batch =>
    refine .ite (fun _ => triple_raise _ fun _ => id) fun _ => ?_
    refine (collects_validateItems plain call.flows [] raw).bind fun items => ?_
    refine .given (c := ∀ item ∈ items, ItemReady r item) (fun _ => id) fun ready => ?_
    refine ((collects_runItems plain attend runs call {} .completed ready).weaken
      fun _ _ => trivial).bind fun _ => (triple_lifted _ fun _ => id).bind fun _ => ?_
    exact (triple_now r).bind fun _ => triple_pure fun _ => id
  case h_2 => exact triple_raise _ fun _ => id

end Rules

/-- Every execution of a whole flow on a validated input has a fact, unless it failed. -/
def FlowsHave (r : WorkflowRunner) (fact : RunFact) : Prop :=
  ∀ depth call w, ValidCall r call → (executeFlowTo r depth call w).1.1.status ≠ .failed →
    fact call.flow (executeFlowTo r depth call w).1.1

variable (facts : FlowsHave r fact)
include plain attend facts

/-- Flows return their facts at every depth of nested collections. -/
theorem executeFlowTo_returns (depth : ℕ) : RunsReturn sound fact r (executeFlowTo r depth) := by
  have evaluates : RunsEvaluate sound (executeFlowTo r depth) := by
    induction depth with
    | zero =>
      refine executeFlowWith_evaluates plain fun _ => ?_
      have read : Collects sound (now r) fun _ => True := triple_now r
      exact read.bind fun _ => triple_refuse plain _ fun _ => id
    | succ depth ih =>
      refine executeFlowWith_evaluates plain
        (executeCollection_evaluates plain attend fun call w => ?_)
      exact ⟨(ih call w).1, fun valid => ⟨(ih call w).2, (executeFlowTo_settles depth call w).2,
        facts depth call w valid⟩⟩
  exact fun call w => ⟨(evaluates call w).1, fun valid => ⟨(evaluates call w).2,
    (executeFlowTo_settles depth call w).2, facts depth call w valid⟩⟩

/-- Every execution of a flow evaluates sound boundaries only, and ends. -/
theorem executeFlow_returns : RunsReturn sound fact r (executeFlow r) :=
  fun call => executeFlowTo_returns plain attend facts _ call

end Collection

end Foliqant.Core
