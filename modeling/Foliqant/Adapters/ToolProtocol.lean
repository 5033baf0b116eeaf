import Foliqant.Adapters.ToolCalls

/-!
# The protocol of tool calls

Every entry of the log is allowed by the entries before it. The one part of the protocol that a run can
miss is about the end of the session: nothing looks at it between an authorization and the request.
-/

namespace Foliqant.Adapters

open Foliqant.Core

/-! ## What the protocol asks -/

/-- The attempt of a call that an entry belongs to. -/
def ToolEntry.attempt : ToolEntry → Option (ℕ × ℕ)
  | .authorized call attempt _ _ | .reserved call attempt _ | .sent call attempt _ =>
      some (call, attempt)
  | _ => none

/-- The entry of a request that was sent. -/
def ToolEntry.isSent : ToolEntry → Bool
  | .sent _ _ _ => true
  | _ => false

/-- What a tool choice asks of the successful tools. -/
def ToolPolicyPlan.Met (policy : ToolPolicyPlan) (successful : String → Prop) : Prop :=
  match policy.choiceMode with
  | .auto => True
  | .required => ∃ name, successful name
  | .named => ∃ name, policy.choiceName = some name ∧ successful name

/-- What must have happened before an entry. An attempt is authorized, reserved and sent at most once, a
ticket belongs to one reservation, and the arguments are the same throughout. -/
def ToolSession.Allowed (session : ToolSession) (before : List ToolEntry) : ToolEntry → Prop
  | .validated _ name arguments => session.catalog.validateInput name arguments = .ok ()
  | .authorized id attempt name arguments =>
      .validated id name arguments ∈ before ∧
        ∀ name' arguments', .authorized id attempt name' arguments' ∉ before
  | .reserved id attempt ticket =>
      ticket ≤ session.limits.toolCalls ∧ (∀ id' attempt', .reserved id' attempt' ticket ∉ before) ∧
        ∀ ticket', .reserved id attempt ticket' ∉ before
  | .sent id attempt request =>
      .validated id request.name request.arguments ∈ before ∧
        .authorized id attempt request.name request.arguments ∈ before ∧
        (∃ ticket, .reserved id attempt ticket ∈ before) ∧ ∀ other, .sent id attempt other ∉ before
  | .accepted _ _ name result value => session.catalog.validateResult name result = .ok value
  | .successful name => ∃ id attempt result value, .accepted id attempt name result value ∈ before
  | .completed => session.policy.Met fun name => .successful name ∈ before
  | .ended _ _ | .closed => True

/-- Every entry is allowed by the entries before it. -/
def ToolSession.Ordered (session : ToolSession) : List ToolEntry → Prop
  | [] => True
  | entry :: before => session.Allowed before entry ∧ session.Ordered before

/-- No request is sent after the session was closed. -/
def SentOpen : List ToolEntry → Prop
  | [] => True
  | entry :: before => (entry.isSent = true → .closed ∉ before) ∧ SentOpen before

/-- What a session's log owes. -/
structure ToolSession.Protocol (session : ToolSession) (s : McpTools) : Prop where
  ordered : session.Ordered s.log
  sentOpen : SentOpen s.log
  limit : s.log.countP ToolEntry.isSent ≤ session.limits.toolCalls
  marked : ∀ name ∈ s.successful, .successful name ∈ s.log

/-! ## What the steps keep -/

/-- A call and its entries in the log. -/
structure Known (session : ToolSession) (log : List ToolEntry) (started id : ℕ) (call : ToolCall) :
    Prop where
  started : id < started
  validated : .validated id call.name call.arguments ∈ log
  tried : ∀ entry ∈ log, ∀ n, entry.attempt = some (id, n) → n ≤ call.attempt

/-- The attempt has not been authorized. -/
def Untried (log : List ToolEntry) (id attempt : ℕ) : Prop :=
  ∀ entry ∈ log, entry.attempt ≠ some (id, attempt)

namespace McpTools

/-- What holds in every state of a session. -/
structure Consistent (session : ToolSession) (s : McpTools) : Prop where
  ordered : session.Ordered s.log
  sends : s.log.countP ToolEntry.isSent ≤ s.model.budget.tools
  marked : ∀ name ∈ s.successful, .successful name ∈ s.log
  model : s.model.Consistent session.limits
  started : ∀ entry ∈ s.log, ∀ id n, entry.attempt = some (id, n) → id < s.started
  tickets : ∀ id n ticket, .reserved id n ticket ∈ s.log → ticket ≤ s.model.budget.tools
  calls : ∀ id call, s.calls.lookup id = some call →
    Known session s.log s.started id call ∧ (call.phase = .sent ∨ Untried s.log id call.attempt)
  closed : .closed ∈ s.log ↔ s.active = false

variable {session : ToolSession} {s next : McpTools} {id : ℕ} {call : ToolCall} {entry : ToolEntry}
  {event : ToolEvent}

/-- The start. -/
theorem consistent_start (session : ToolSession) : Consistent session (machine session).start where
  ordered := trivial
  sends := Nat.zero_le _
  marked _ mem := absurd mem List.not_mem_nil
  model := InvocationModel.consistent_start session.limits
  started _ mem := absurd mem List.not_mem_nil
  tickets _ _ _ mem := absurd mem List.not_mem_nil
  calls _ _ found := by cases found
  closed := iff_of_false List.not_mem_nil Bool.noConfusion

/-- An entry of another attempt changes nothing about a call. -/
theorem known_cons {log : List ToolEntry} {started : ℕ} (h : Known session log started id call)
    (other : ∀ n, entry.attempt = some (id, n) → n ≤ call.attempt) :
    Known session (entry :: log) started id call where
  started := h.started
  validated := List.mem_cons_of_mem _ h.validated
  tried other' mem n same := by
    rcases List.mem_cons.mp mem with rfl | before
    · exact other n same
    · exact h.tried other' before n same

/-- An attempt that no entry is about. -/
theorem untried_cons {log : List ToolEntry} {attempt : ℕ} :
    Untried (entry :: log) id attempt ↔ entry.attempt ≠ some (id, attempt) ∧ Untried log id attempt :=
  List.forall_mem_cons

/-- An entry about no attempt is not sent. -/
theorem isSent_of_attempt (apart : entry.attempt = none) : entry.isSent = false := by
  cases entry <;> first | rfl | cases apart

/-- A new entry that the protocol allows. -/
theorem Consistent.note (h : Consistent session s) (allowed : session.Allowed s.log entry)
    (apart : entry.attempt = none) (closing : entry ≠ .closed) :
    Consistent session (s.note entry) where
  ordered := ⟨allowed, h.ordered⟩
  sends := by
    show (entry :: s.log).countP _ ≤ _
    rw [List.countP_cons_of_neg (Bool.eq_false_iff.mp (isSent_of_attempt apart))]
    exact h.sends
  marked name mem := List.mem_cons_of_mem _ (h.marked name mem)
  model := h.model
  started other mem id n same := by
    rcases List.mem_cons.mp mem with rfl | before
    · rw [apart] at same
      cases same
    · exact h.started other before id n same
  tickets id n ticket mem := by
    rcases List.mem_cons.mp mem with rfl | before
    · cases apart
    · exact h.tickets id n ticket before
  calls id call found := by
    obtain ⟨known, phase⟩ := h.calls id call found
    refine ⟨known_cons known fun n same => ?_, phase.imp_right fun untried => ?_⟩
    · rw [apart] at same
      cases same
    · refine untried_cons.mpr ⟨?_, untried⟩
      rw [apart]
      exact nofun
  closed := by
    show .closed ∈ entry :: s.log ↔ _
    rw [List.mem_cons, or_iff_right (Ne.symm closing)]
    exact h.closed

/-- Forgetting a call. -/
theorem Consistent.erase (h : Consistent session s) (id : ℕ) :
    Consistent session { s with calls := Dict.erase id s.calls } :=
  { h with
    calls := fun other call found => by
      by_cases same : other = id
      · rw [same, Dict.lookup_erase_self] at found
        cases found
      · rw [Dict.lookup_erase_of_ne same] at found
        exact h.calls other call found }

/-- Keeping a call that is known. -/
theorem Consistent.setCall (h : Consistent session s) (known : Known session s.log s.started id call)
    (phase : call.phase = .sent ∨ Untried s.log id call.attempt) :
    Consistent session { s with calls := Dict.set id call s.calls } :=
  { h with
    calls := fun other call' found => by
      by_cases same : other = id
      · rw [same, Dict.lookup_set_self] at found
        obtain rfl := Option.some.inj found
        rw [same]
        exact ⟨known, phase⟩
      · rw [Dict.lookup_set_of_ne same] at found
        exact h.calls other call' found }

/-- The end of a call. -/
theorem Consistent.ended (h : Consistent session s) (id : ℕ) (outcome : Except ToolRaised Json) :
    Consistent session (s.ended id outcome) :=
  (h.erase id).note trivial rfl nofun

/-- The failure of a call. -/
theorem Consistent.failed (h : Consistent session s) (id : ℕ) (fromModel : Bool) (raised : ToolRaised)
    (now : ℚ) : Consistent session (s.failed session id fromModel raised now) :=
  h.ended id _

/-- A call that waits for its next attempt has not tried it. -/
theorem Consistent.attemptRaised (h : Consistent session s)
    (known : Known session s.log s.started id call) (raised : ToolRaised) (now jitter : ℚ) :
    Consistent session (s.attemptRaised session id call raised now jitter) := by
  unfold McpTools.attemptRaised
  rcases session.handled now raised with failure | error | exception
  · dsimp only
    split
    · exact h.failed id _ _ now
    · split
      · exact h.failed id _ _ now
      · refine h.setCall ⟨known.started, known.validated, ?_⟩ (.inr ?_)
        · exact fun entry mem n same => Nat.le_succ_of_le (known.tried entry mem n same)
        · intro entry mem same
          have := known.tried entry mem _ same
          exact absurd this (Nat.not_succ_le_self _)
  · rcases call.last with _ | failure
    · exact h.failed id _ _ now
    · dsimp only
      split
      · exact h.failed id _ _ now
      · exact h.failed id _ _ now
  · exact h.failed id _ _ now

/-- A new attempt of a call. -/
theorem Consistent.attempt (h : Consistent session s) (known : Known session s.log s.started id call)
    (untried : Untried s.log id call.attempt) (now : ℚ) :
    Consistent session (s.attempt session id call now) := by
  unfold McpTools.attempt
  split
  · exact h.failed id _ _ now
  · split
    · exact h.setCall ⟨known.started, known.validated, known.tried⟩ (.inr untried)
    · exact h.attemptRaised known _ now 0

/-- An admitted call has validated arguments. -/
theorem validated_of_admits {active fromModel : Bool} {name : String} {arguments : Object}
    {now deadline : ℚ}
    (admitted : session.admits active name arguments fromModel now = .ok deadline) :
    session.catalog.validateInput name arguments = .ok () := by
  unfold ToolSession.admits at admitted
  split at admitted
  · cases admitted
  split at admitted
  · cases admitted
  split at admitted
  · cases admitted
  rcases checked : session.catalog.validateInput name arguments with error | ⟨⟩
  · rw [checked] at admitted
    cases admitted
  · rfl

/-- A new call. -/
theorem Consistent.called (h : Consistent session s) (name : String) (arguments : Object)
    (fromModel : Bool) (now : ℚ) :
    Consistent session (s.call session name arguments fromModel now) := by
  unfold McpTools.call
  have counted : Consistent session { s with started := s.started + 1 } :=
    { h with
      started := fun entry mem id n same => Nat.lt_succ_of_lt (h.started entry mem id n same)
      calls := fun id call found => by
        obtain ⟨known, phase⟩ := h.calls id call found
        exact ⟨⟨Nat.lt_succ_of_lt known.started, known.validated, known.tried⟩, phase⟩ }
  dsimp only
  rcases admitted : session.admits s.active name arguments fromModel now with error | deadline
  · exact counted.failed s.started _ _ now
  have noted : Consistent session (McpTools.note { s with started := s.started + 1 }
      (.validated s.started name arguments)) :=
    counted.note (validated_of_admits admitted) rfl nofun
  -- The number of the call is new, and so are its attempts.
  have fresh : ∀ entry ∈ ToolEntry.validated s.started name arguments :: s.log, ∀ n,
      entry.attempt ≠ some (s.started, n) := by
    intro entry mem n same
    rcases List.mem_cons.mp mem with rfl | before
    · cases same
    · exact absurd (h.started entry before _ n same) (lt_irrefl _)
  refine noted.attempt ⟨Nat.lt_succ_self _, List.mem_cons_self, ?_⟩
    (fun entry mem => fresh entry mem _) now
  exact fun entry mem n same => absurd same (fresh entry mem n)

/-! ## From the authorization to the request -/

/-- What an authorized attempt sends, when it is in time, the step has a tool call left and the metadata
is valid. -/
def GoesOn (session : ToolSession) (s : McpTools) (call : ToolCall) (answer : Except ToolRaised Unit)
    (carrier : List (String × String)) (now : ℚ) : Prop :=
  answer = .ok () ∧ now < call.deadline ∧ s.model.budget.tools < s.model.budget.toolLimit ∧
    (session.metadata carrier).Succeeds

/-- An entry of the attempt that a call is at, past its authorization. -/
theorem Consistent.noteAttempt (h : Consistent session s) (found : s.calls.lookup id = some call)
    (sent : call.phase = .sent) (here : entry.attempt = some (id, call.attempt))
    (allowed : session.Allowed s.log entry)
    (room : entry.isSent = true → s.log.countP ToolEntry.isSent < s.model.budget.tools)
    (ticketed : ∀ id n ticket, entry = .reserved id n ticket → ticket ≤ s.model.budget.tools) :
    Consistent session (s.note entry) where
  ordered := ⟨allowed, h.ordered⟩
  sends := by
    show (entry :: s.log).countP _ ≤ _
    rcases kind : entry.isSent with _ | _
    · rw [List.countP_cons_of_neg (Bool.eq_false_iff.mp kind)]
      exact h.sends
    · rw [List.countP_cons_of_pos kind]
      exact room kind
  marked name mem := List.mem_cons_of_mem _ (h.marked name mem)
  model := h.model
  started other mem id' n same := by
    rcases List.mem_cons.mp mem with rfl | before
    · rw [here] at same
      obtain ⟨rfl, -⟩ := Prod.mk.inj (Option.some.inj same)
      exact (h.calls _ call found).1.started
    · exact h.started other before id' n same
  tickets id' n ticket mem := by
    rcases List.mem_cons.mp mem with rfl | before
    · exact ticketed id' n ticket rfl
    · exact h.tickets id' n ticket before
  calls other call' found' := by
    obtain ⟨known, phase⟩ := h.calls other call' found'
    by_cases same : id = other
    · subst same
      obtain rfl := Option.some.inj (found.symm.trans found')
      refine ⟨known_cons known fun n equal => ?_, .inl sent⟩
      rw [here] at equal
      exact (Prod.mk.inj (Option.some.inj equal)).2.ge
    · have apart : ∀ n, entry.attempt ≠ some (other, n) := by
        intro n equal
        rw [here] at equal
        exact same (Prod.mk.inj (Option.some.inj equal)).1
      exact ⟨known_cons known fun n equal => absurd equal (apart n),
        phase.imp_right fun untried => untried_cons.mpr ⟨apart _, untried⟩⟩
  closed := by
    show .closed ∈ entry :: s.log ↔ _
    have other : entry ≠ .closed := by
      rintro rfl
      cases here
    rw [List.mem_cons, or_iff_right other.symm]
    exact h.closed

/-- Sending an authorized request. -/
theorem Consistent.send (h : Consistent session s) (found : s.calls.lookup id = some call)
    (sent : call.phase = .sent) {before : List ToolEntry}
    (noted : s.log = .authorized id call.attempt call.name call.arguments :: before)
    (untried : Untried before id call.attempt) (carrier : List (String × String)) (now jitter : ℚ) :
    Consistent session (s.send session id call carrier now jitter) := by
  have known := (h.calls id call found).1
  unfold McpTools.send
  split
  · exact h.attemptRaised known _ now jitter
  -- a passed deadline and a spent budget raise before anything is reserved
  rcases reserved : s.model.budget.startToolCall with error | ⟨ticket, budget⟩
  · exact h.attemptRaised known _ now jitter
  obtain ⟨free, rfl, rfl⟩ := StepBudget.startToolCall_eq_ok.mp reserved
  have limit := h.model.toolLimit
  have model : InvocationModel.Consistent session.limits
      { s.model with budget := { s.model.budget with tools := s.model.budget.tools + 1 } } := by
    have taken := h.model.toolCall
    unfold InvocationModel.toolCall at taken
    rw [reserved] at taken
    exact taken
  -- the reservation only raises the count of tool calls
  have paid : Consistent session
      { s with
        model :=
          { s.model with budget := { s.model.budget with tools := s.model.budget.tools + 1 } } } :=
    { h with
      sends := Nat.le_succ_of_le h.sends
      model := model
      tickets := fun id n ticket mem => Nat.le_succ_of_le (h.tickets id n ticket mem) }
  have counted : Consistent session (McpTools.note
      { s with
        model :=
          { s.model with budget := { s.model.budget with tools := s.model.budget.tools + 1 } } }
      (.reserved id call.attempt (s.model.budget.tools + 1))) := by
    refine paid.noteAttempt found sent rfl ⟨?_, ?_, ?_⟩ nofun ?_
    · rw [← limit]
      exact free
    · intro id' n mem
      exact absurd (h.tickets id' n _ mem) (Nat.not_succ_le_self _)
    · intro ticket mem
      rw [noted] at mem
      rcases List.mem_cons.mp mem with equal | mem
      · cases equal
      · exact untried _ mem rfl
    · rintro _ _ _ ⟨⟩
      exact le_refl _
  dsimp only
  -- a carrier that is no metadata raises after the reservation, which stays spent
  rcases session.metadata carrier with error | metadata
  · exact counted.attemptRaised (counted.calls id call found).1 _ now jitter
  · refine counted.noteAttempt found sent rfl ⟨?_, ?_, ?_, ?_⟩ ?_ nofun
    · exact List.mem_cons_of_mem _ known.validated
    · exact List.mem_cons_of_mem _ (noted ▸ List.mem_cons_self)
    · exact ⟨_, List.mem_cons_self⟩
    · intro other mem
      rcases List.mem_cons.mp mem with equal | mem
      · cases equal
      rw [noted] at mem
      rcases List.mem_cons.mp mem with equal | mem
      · cases equal
      · exact untried _ mem rfl
    · intro _
      exact Nat.lt_succ_of_le h.sends

/-- The answer of the authorizer. -/
theorem Consistent.authorize (h : Consistent session s)
    (known : Known session s.log s.started id call) (untried : Untried s.log id call.attempt)
    (answer : Except ToolRaised Unit) (carrier : List (String × String)) (now jitter : ℚ) :
    Consistent session (s.authorize session id call answer carrier now jitter) := by
  unfold McpTools.authorize
  rcases answer with raised | ⟨⟩
  · exact h.attemptRaised known raised now jitter
  have placed : Consistent session
      { s with calls := Dict.set id { call with phase := .sent } s.calls } :=
    h.setCall ⟨known.started, known.validated, known.tried⟩ (.inl rfl)
  have found : (Dict.set id { call with phase := .sent } s.calls).lookup id =
      some { call with phase := .sent } := Dict.lookup_set_self id _ s.calls
  have noted : Consistent session (McpTools.note
      { s with calls := Dict.set id { call with phase := .sent } s.calls }
      (.authorized id call.attempt call.name call.arguments)) :=
    placed.noteAttempt found rfl rfl
      ⟨known.validated, fun name arguments mem => untried _ mem rfl⟩ nofun nofun
  exact noted.send found rfl rfl untried carrier now jitter

/-! ## The other steps -/

/-- A result that is accepted. -/
theorem Consistent.accept (h : Consistent session s) {name : String} {attempt : ℕ}
    {result : CallToolResult} {value : Json}
    (valid : session.catalog.validateResult name result = .ok value) :
    Consistent session (McpTools.note
      { s with
        successful := s.successful.insert name
        log := .accepted id attempt name result value :: s.log } (.successful name)) := by
  have accepted : Consistent session (s.note (.accepted id attempt name result value)) :=
    h.note valid rfl nofun
  have marked : Consistent session
      (McpTools.note (s.note (.accepted id attempt name result value)) (.successful name)) :=
    accepted.note ⟨id, attempt, result, value, List.mem_cons_self⟩ rfl nofun
  refine { marked with marked := fun other mem => ?_ }
  rcases List.mem_insert_iff.mp mem with rfl | mem
  · exact List.mem_cons_self
  · exact marked.marked other mem

/-- The reply to a request. -/
theorem Consistent.reply (h : Consistent session s) (known : Known session s.log s.started id call)
    (reply : ToolReply) (now jitter : ℚ) :
    Consistent session (s.reply session id call reply now jitter) := by
  unfold McpTools.reply
  rcases reply with result | _ | ⟨error, http⟩ | _ | _
  · dsimp only
    split
    · exact h.attemptRaised known _ now jitter
    rcases valid : session.catalog.validateResult call.name result with error | value
    · exact h.attemptRaised known _ now jitter
    · exact (h.accept valid).ended id _
  · dsimp only
    split
    · exact h.attemptRaised known _ now jitter
    · exact h.attemptRaised known _ now jitter
  · exact h.attemptRaised known _ now jitter
  · exact h.attemptRaised known _ now jitter
  · exact h.attemptRaised known _ now jitter

/-- A request that ran out of time. -/
theorem Consistent.expire (h : Consistent session s) (known : Known session s.log s.started id call)
    (now : ℚ) : Consistent session (s.expire session id call now) := by
  unfold McpTools.expire
  rcases call.phase with _ | _ | _
  · exact h.attemptRaised known _ now 0
  · exact h.attemptRaised known _ now 0
  · exact h.failed id _ _ now

/-- What the model requests between its calls. -/
theorem Consistent.converse (h : Consistent session s) {event : RequestEvent}
    (taken : s.converse session event = some next) : Consistent session next := by
  have keeps : ∀ event, event ≠ .toolCall →
      (s.model.step session.limits event).map (fun model => { s with model := model }) = some next →
      Consistent session next := by
    intro event other taken
    obtain ⟨model, moved, rfl⟩ := Option.map_eq_some_iff.mp taken
    have same := InvocationModel.tools_of_step moved other
    exact
      { h with
        sends := same ▸ h.sends
        model := h.model.step moved
        tickets := fun id n ticket mem => same ▸ h.tickets id n ticket mem }
  unfold McpTools.converse at taken
  rcases event with ⟨id, outputRetry, prepared⟩ | ⟨id, model, pricing, late⟩ | ⟨id, usage⟩ |
    ⟨id, transient⟩ | id | _
  · exact keeps (.request id outputRetry _) nofun taken
  · exact keeps (.attempt id model pricing late) nofun taken
  · exact keeps (.response id usage) nofun taken
  · exact keeps (.failure id transient) nofun taken
  · exact keeps (.leave id) nofun taken
  · cases taken

/-- A validated completion has what the tool choice asks. -/
theorem met_of_validateCompletion {policy : ToolPolicyPlan} {successful : List String}
    (valid : policy.validateCompletion successful = .ok ()) :
    policy.Met (· ∈ successful) := by
  unfold ToolPolicyPlan.validateCompletion at valid
  unfold ToolPolicyPlan.Met
  obtain ⟨_ | _ | _, choice⟩ := policy
  · trivial
  · dsimp only at valid ⊢
    rcases successful with _ | ⟨name, others⟩
    · cases valid
    · exact ⟨name, List.mem_cons_self⟩
  · dsimp only at valid ⊢
    split at valid
    case isTrue named =>
      unfold ToolPolicyPlan.named at named
      rcases choice with _ | name
      · cases named
      · exact ⟨name, rfl, List.contains_iff_mem.mp named⟩
    case isFalse => cases valid

/-- A policy that is met stays met when more tools succeed. -/
theorem Met.mono {policy : ToolPolicyPlan} {successful successful' : String → Prop}
    (h : policy.Met successful) (imp : ∀ name, successful name → successful' name) :
    policy.Met successful' := by
  unfold ToolPolicyPlan.Met at *
  obtain ⟨_ | _ | _, choice⟩ := policy
  · trivial
  · obtain ⟨name, known⟩ := h
    exact ⟨name, imp name known⟩
  · obtain ⟨name, named, known⟩ := h
    exact ⟨name, named, imp name known⟩

/-- The end of the conversation. -/
theorem Consistent.complete (h : Consistent session s) : Consistent session (s.complete session) := by
  unfold McpTools.complete
  rcases valid : session.policy.validateCompletion s.successful with error | ⟨⟩
  · exact h
  · exact h.note (Met.mono (met_of_validateCompletion valid) h.marked) rfl nofun

/-- The end of the session. -/
theorem Consistent.close (h : Consistent session s) : Consistent session s.close where
  ordered := ⟨trivial, h.ordered⟩
  sends := by
    show (ToolEntry.closed :: s.log).countP _ ≤ _
    rw [List.countP_cons_of_neg Bool.noConfusion]
    exact h.sends
  marked name mem := List.mem_cons_of_mem _ (h.marked name mem)
  model := h.model
  started entry mem id n same := by
    rcases List.mem_cons.mp mem with rfl | before
    · cases same
    · exact h.started entry before id n same
  tickets id n ticket mem := by
    rcases List.mem_cons.mp mem with equal | before
    · cases equal
    · exact h.tickets id n ticket before
  calls id call found := by
    obtain ⟨known, phase⟩ := h.calls id call found
    exact ⟨known_cons known nofun, phase.imp_right fun untried => untried_cons.mpr ⟨nofun, untried⟩⟩
  closed := iff_of_true List.mem_cons_self rfl

/-- A call in a phase. -/
theorem callIn_eq_some {phase : CallPhase} :
    s.callIn id phase = some call ↔ s.calls.lookup id = some call ∧ call.phase = phase := by
  unfold callIn
  rw [Option.filter_eq_some_iff, decide_eq_true_eq]

/-- Every event. -/
theorem Consistent.step (h : Consistent session s)
    (taken : (machine session).step s event = some next) :
    Consistent session next := by
  rcases event with ⟨name, arguments, fromModel, now⟩ | ⟨id, answer, carrier, now, jitter⟩ |
    ⟨id, reply, now, jitter⟩ | ⟨id, now⟩ | ⟨id, now⟩ | id | event | _ | _
  · exact Option.some.inj taken ▸ h.called name arguments fromModel now
  · obtain ⟨call, found, rfl⟩ := Option.map_eq_some_iff.mp taken
    obtain ⟨found, phase⟩ := callIn_eq_some.mp found
    obtain ⟨known, untried⟩ := h.calls id call found
    rw [phase] at untried
    exact h.authorize known (untried.resolve_left nofun) answer carrier now jitter
  · obtain ⟨call, found, rfl⟩ := Option.map_eq_some_iff.mp taken
    exact h.reply (h.calls id call (callIn_eq_some.mp found).1).1 reply now jitter
  · obtain ⟨call, found, rfl⟩ := Option.map_eq_some_iff.mp taken
    obtain ⟨found, phase⟩ := callIn_eq_some.mp found
    obtain ⟨known, untried⟩ := h.calls id call found
    rw [phase] at untried
    exact h.attempt known (untried.resolve_left nofun) now
  · obtain ⟨call, found, rfl⟩ := Option.map_eq_some_iff.mp taken
    exact h.expire (h.calls id call found).1 now
  · obtain ⟨call, -, rfl⟩ := Option.map_eq_some_iff.mp taken
    exact h.ended id _
  · exact h.converse taken
  · exact Option.some.inj taken ▸ h.complete
  · exact Option.some.inj taken ▸ h.close

/-- Every run. -/
theorem consistent_of_run {events : List ToolEvent}
    (ran : (machine session).run (machine session).start events = some s) : Consistent session s :=
  Machine.run_invariant Consistent.step (consistent_start session) events ran

/-! ## The end of the session -/

/-- Nothing was authorized too late: where an authorized attempt goes on, the session is still open. -/
def StillOpen (session : ToolSession) (s : McpTools) : ToolEvent → Prop
  | .authorize id answer carrier now _ =>
      s.active = true ∨
        ∀ call, s.calls.lookup id = some call → ¬ GoesOn session s call answer carrier now
  | _ => True

/-- An operation sends nothing. -/
def Quiet (s next : McpTools) : Prop := SentOpen next.log ↔ SentOpen s.log

/-- An entry that is not sent changes nothing about sent ones. -/
theorem sentOpen_cons {log : List ToolEntry} (unsent : entry.isSent = false) :
    SentOpen (entry :: log) ↔ SentOpen log := by
  show (_ ∧ _) ↔ _
  rw [unsent]
  exact and_iff_right nofun

/-- Noting an entry that is not sent sends nothing. -/
theorem quiet_note (unsent : entry.isSent = false) : Quiet s (s.note entry) := sentOpen_cons unsent

/-- The end of a call sends nothing. -/
theorem quiet_ended (id : ℕ) (outcome : Except ToolRaised Json) : Quiet s (s.ended id outcome) :=
  sentOpen_cons rfl

/-- A failed attempt sends nothing. -/
theorem quiet_attemptRaised (raised : ToolRaised) (now jitter : ℚ) :
    Quiet s (s.attemptRaised session id call raised now jitter) := by
  unfold McpTools.attemptRaised
  rcases session.handled now raised with failure | error | exception
  · dsimp only
    split
    · exact quiet_ended id _
    · split
      · exact quiet_ended id _
      · exact Iff.rfl
  · rcases call.last with _ | failure
    · exact quiet_ended id _
    · dsimp only
      split
      · exact quiet_ended id _
      · exact quiet_ended id _
  · exact quiet_ended id _

/-- A new attempt sends nothing before it is authorized. -/
theorem quiet_attempt (now : ℚ) : Quiet s (s.attempt session id call now) := by
  unfold McpTools.attempt
  split
  · exact quiet_ended id _
  · split
    · exact Iff.rfl
    · exact quiet_attemptRaised _ now 0

/-- A new call sends nothing before it is authorized. -/
theorem quiet_call (name : String) (arguments : Object) (fromModel : Bool) (now : ℚ) :
    Quiet s (s.call session name arguments fromModel now) := by
  unfold McpTools.call
  dsimp only
  rcases session.admits s.active name arguments fromModel now with error | deadline
  · exact sentOpen_cons rfl
  · exact (quiet_attempt now).trans (sentOpen_cons rfl)

/-- A reply sends nothing. -/
theorem quiet_reply (reply : ToolReply) (now jitter : ℚ) :
    Quiet s (s.reply session id call reply now jitter) := by
  unfold McpTools.reply
  rcases reply with result | _ | ⟨error, http⟩ | _ | _
  · dsimp only
    split
    · exact quiet_attemptRaised _ now jitter
    rcases session.catalog.validateResult call.name result with error | value
    · exact quiet_attemptRaised _ now jitter
    · exact ((sentOpen_cons rfl).trans (sentOpen_cons rfl)).trans (sentOpen_cons rfl)
  · dsimp only
    split
    · exact quiet_attemptRaised _ now jitter
    · exact quiet_attemptRaised _ now jitter
  · exact quiet_attemptRaised _ now jitter
  · exact quiet_attemptRaised _ now jitter
  · exact quiet_attemptRaised _ now jitter

/-- Running out of time sends nothing. -/
theorem quiet_expire (now : ℚ) : Quiet s (s.expire session id call now) := by
  unfold McpTools.expire
  rcases call.phase with _ | _ | _
  · exact quiet_attemptRaised _ now 0
  · exact quiet_attemptRaised _ now 0
  · exact quiet_ended id _

/-- The model's requests send nothing to tools. -/
theorem quiet_converse {event : RequestEvent} (taken : s.converse session event = some next) :
    Quiet s next := by
  unfold McpTools.converse at taken
  rcases event with ⟨id, outputRetry, prepared⟩ | ⟨id, model, pricing, late⟩ | ⟨id, usage⟩ |
    ⟨id, transient⟩ | id | _
  all_goals
    first
      | (obtain ⟨model, -, rfl⟩ := Option.map_eq_some_iff.mp taken
         exact Iff.rfl)
      | cases taken

/-- The end of the conversation sends nothing. -/
theorem quiet_complete : Quiet s (s.complete session) := by
  unfold McpTools.complete
  rcases session.policy.validateCompletion s.successful with error | ⟨⟩
  · exact Iff.rfl
  · exact quiet_note rfl

/-- An authorized attempt keeps the order with the end of the session exactly when the session is open or
the attempt does not go on. -/
theorem sentOpen_send (closed : .closed ∈ s.log ↔ s.active = false) (carrier : List (String × String))
    (now jitter : ℚ) :
    SentOpen (s.send session id call carrier now jitter).log ↔
      SentOpen s.log ∧ (s.active = true ∨ ¬ GoesOn session s call (.ok ()) carrier now) := by
  -- every way to stop leaves the log without a further send
  have stops {next : McpTools} (quiet : Quiet s next)
      (stopped : ¬ GoesOn session s call (.ok ()) carrier now) : SentOpen next.log ↔
        SentOpen s.log ∧ (s.active = true ∨ ¬ GoesOn session s call (.ok ()) carrier now) :=
    quiet.trans (and_iff_left (.inr stopped)).symm
  unfold McpTools.send
  split
  case isTrue late =>
    exact stops (quiet_attemptRaised _ now jitter) fun goes => absurd goes.2.1 (not_lt.mpr late)
  case isFalse inTime =>
    rcases reserved : s.model.budget.startToolCall with error | ⟨ticket, budget⟩
    · refine stops (quiet_attemptRaised _ now jitter) ?_
      intro goes
      have free := StepBudget.startToolCall_eq_ok.mpr ⟨goes.2.2.1, rfl, rfl⟩
      rw [reserved] at free
      cases free
    have free := (StepBudget.startToolCall_eq_ok.mp reserved).1
    dsimp only
    rcases carried : session.metadata carrier with error | metadata
    · refine stops ((quiet_attemptRaised _ now jitter).trans (sentOpen_cons rfl)) ?_
      rintro ⟨-, -, -, metadata, written⟩
      rw [carried] at written
      cases written
    · have goes : GoesOn session s call (.ok ()) carrier now :=
        ⟨rfl, not_le.mp inTime, free, metadata, carried⟩
      have unclosed : ToolEntry.closed ∉ ToolEntry.reserved id call.attempt ticket :: s.log ↔
          s.active = true := by
        rw [List.mem_cons, or_iff_right nofun, closed, Bool.not_eq_false]
      rw [or_iff_left (not_not.mpr goes), ← unclosed]
      show (true = true → _) ∧ SentOpen (_ :: _) ↔ _
      rw [sentOpen_cons rfl, imp_iff_right rfl, and_comm]
      exact Iff.rfl

/-- What is sent for an authorized attempt is sent while the session is open. -/
theorem sentOpen_authorize (h : Consistent session s) (answer : Except ToolRaised Unit)
    (carrier : List (String × String)) (now jitter : ℚ) :
    SentOpen (s.authorize session id call answer carrier now jitter).log ↔
      SentOpen s.log ∧ (s.active = true ∨ ¬ GoesOn session s call answer carrier now) := by
  unfold McpTools.authorize
  rcases answer with raised | ⟨⟩
  · exact (quiet_attemptRaised raised now jitter).trans
      (and_iff_left (.inr fun goes => nomatch goes.1)).symm
  · refine (sentOpen_send ?_ carrier now jitter).trans (and_congr_left' (sentOpen_cons rfl))
    have apart : ToolEntry.closed ≠ .authorized id call.attempt call.name call.arguments := nofun
    exact (List.mem_cons.trans (or_iff_right apart)).trans h.closed

/-- What one step makes of the order with the end of the session. -/
theorem sentOpen_step (h : Consistent session s)
    (taken : (machine session).step s event = some next) :
    SentOpen next.log ↔ SentOpen s.log ∧ StillOpen session s event := by
  have quiet (calm : Quiet s next) : SentOpen next.log ↔ SentOpen s.log ∧ True :=
    calm.trans (and_iff_left trivial).symm
  rcases event with ⟨name, arguments, fromModel, now⟩ | ⟨id, answer, carrier, now, jitter⟩ |
    ⟨id, reply, now, jitter⟩ | ⟨id, now⟩ | ⟨id, now⟩ | id | event | _ | _
  · exact quiet (Option.some.inj taken ▸ quiet_call name arguments fromModel now)
  · obtain ⟨call, found, rfl⟩ := Option.map_eq_some_iff.mp taken
    obtain ⟨found, -⟩ := callIn_eq_some.mp found
    rw [sentOpen_authorize h]
    refine and_congr_right fun _ => or_congr_right ?_
    constructor
    · intro stopped call' found'
      exact Option.some.inj (found.symm.trans found') ▸ stopped
    · exact fun stopped => stopped call found
  · obtain ⟨call, -, rfl⟩ := Option.map_eq_some_iff.mp taken
    exact quiet (quiet_reply reply now jitter)
  · obtain ⟨call, -, rfl⟩ := Option.map_eq_some_iff.mp taken
    exact quiet (quiet_attempt now)
  · obtain ⟨call, -, rfl⟩ := Option.map_eq_some_iff.mp taken
    exact quiet (quiet_expire now)
  · obtain ⟨call, -, rfl⟩ := Option.map_eq_some_iff.mp taken
    exact quiet (quiet_ended id _)
  · exact quiet (quiet_converse taken)
  · exact quiet (Option.some.inj taken ▸ quiet_complete)
  · exact quiet (Option.some.inj taken ▸ sentOpen_cons rfl)

/-- A run keeps the protocol exactly when nothing was authorized too late. -/
theorem protocol_iff_stillOpen (session : ToolSession) (events : List ToolEvent) (s : McpTools)
    (ran : (machine session).run (machine session).start events = some s) :
    session.Protocol s ↔
      (machine session).Meets (StillOpen session) (machine session).start events := by
  have consistent := consistent_of_run ran
  have limit : s.log.countP ToolEntry.isSent ≤ session.limits.toolCalls :=
    consistent.sends.trans consistent.model.accounting.toolCalls
  have order := Machine.run_iff Consistent.step sentOpen_step (consistent_start session) events ran
  constructor
  · exact fun protocol => (order.mp protocol.sentOpen).2
  · exact fun meets => ⟨consistent.ordered, order.mpr ⟨trivial, meets⟩, limit, consistent.marked⟩

/-! One tool that accepts everything, called once. -/

/-- A session with one tool. -/
def exampleSession : ToolSession where
  catalog :=
    { tools :=
        [("lookup",
          { inputValidator := fun _ => .valid, outputValidator := some fun _ => .valid,
            effect := .read })]
      maxResultBytes := 1024
      canonicalBytes := fun _ => some 2 }
  names := ["lookup"]
  policy := { choiceMode := .required }
  retry := Core.examplePolicy
  timeout := 10
  deadline := 60
  limits := { modelRequests := 1, toolCalls := 1, maxIterations := none }

/-- The session after the call: its arguments are validated, and the authorizer decides. -/
def exampleCalled : McpTools where
  model := (InvocationModel.machine exampleSession.limits).start
  started := 1
  calls := [(0, { name := "lookup", arguments := [], fromModel := false, deadline := 10 })]
  log := [.validated 0 "lookup" []]

/-- A call of the tool. -/
theorem exampleSession_call :
    (machine exampleSession).step (machine exampleSession).start (.call "lookup" [] false 0) =
      some exampleCalled := by
  have admitted : exampleSession.admits true "lookup" [] false 0 = .ok 10 := by decide +kernel
  show some (McpTools.call _ _ _ _ _ _) = _
  unfold McpTools.call
  dsimp only
  rw [show (machine exampleSession).start.active = true from rfl, admitted]
  rfl

/-- What follows the call. -/
theorem exampleSession_run {events : List ToolEvent} {s : McpTools}
    (ran : (machine exampleSession).run exampleCalled events = some s) :
    (machine exampleSession).run (machine exampleSession).start
      (.call "lookup" [] false 0 :: events) = some s := by
  unfold Machine.run
  rw [exampleSession_call]
  exact ran

/-- The call is answered in the open session, which is enough for the completion. -/
theorem protocol_iff_stillOpen_lookup : ∃ s,
    (machine exampleSession).run (machine exampleSession).start
        [.call "lookup" [] false 0, .authorize 0 (.ok ()) [] 1 0,
          .reply 0 (.result { structuredContent := some (.obj []) }) 2 0, .complete,
          .close] = some s ∧
      exampleSession.Protocol s ∧ ToolEntry.completed ∈ s.log := by
  have ran : (machine exampleSession).run (machine exampleSession).start
      [.call "lookup" [] false 0, .authorize 0 (.ok ()) [] 1 0,
        .reply 0 (.result { structuredContent := some (.obj []) }) 2 0, .complete, .close] = some _ :=
    exampleSession_run rfl
  refine ⟨_, ran, (protocol_iff_stillOpen exampleSession _ _ ran).mpr ⟨trivial, ?_⟩,
    .tail _ (.head _)⟩
  intro next taken
  obtain rfl := Option.some.inj (exampleSession_call.symm.trans taken)
  exact ⟨.inl rfl, fun _ _ =>
    ⟨trivial, fun _ _ => ⟨trivial, fun _ _ => ⟨trivial, fun _ _ => trivial⟩⟩⟩⟩

/-- The session is closed while the authorizer decides, and the request is sent all the same. -/
theorem closed_while_authorizing : ∃ s,
    (machine exampleSession).run (machine exampleSession).start
        [.call "lookup" [] false 0, .close, .authorize 0 (.ok ()) [] 1 0] = some s ∧
      ¬ exampleSession.Protocol s := by
  refine ⟨_, exampleSession_run rfl, fun protocol => ?_⟩
  exact protocol.sentOpen.1 rfl (.tail _ (.tail _ (.head _)))

end McpTools

end Foliqant.Adapters
