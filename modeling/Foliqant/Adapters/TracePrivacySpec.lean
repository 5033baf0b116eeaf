import Foliqant.Adapters.TracePrivacy

/-!
# Exported spans carry no content

A text is public when it is a configured label, a fixed word or a declared identifier, and content
otherwise. Every rule keeps public values under public keys only, so two spans that differ in content
are exported alike.
-/

namespace Foliqant.Adapters.Telemetry

open Foliqant.Core KeyedFilter

/-! ## Content -/

/-- The names of events that pass. -/
def EVENTS : List String :=
  ["route.selected", "repeat.stopped", "step.skipped", "condition.evaluated",
    "condition.type_mismatch", "handler.review"]

/-- The fixed vocabularies. -/
def VOCABULARIES : List (List String) :=
  [GEN_AI_OPERATIONS, MCP_METHODS, OUTCOMES, ERROR_TYPES, FINISH_REASONS, ROLES, ROUTE_KINDS,
    OUTCOME_TARGETS, STOPS, ISSUES, OPERATORS, MISMATCHES, STEP_KINDS, SCOPES, EVENTS]

/-- All fixed words. -/
def WORDS : List String := VOCABULARIES.flatten

section Content

variable (labels : TelemetryLabels)

/-- The keys of the attributes of spans and events. -/
def knownKeys : List String :=
  (attributeRules labels).map Rule.key ++
    EVENTS.flatMap fun name => ((eventForm labels name).map fun form => form.2.map Rule.key).getD []

/-- A configured label or condition. -/
def isConfigured (text : String) : Bool :=
  [labels.services, labels.models, labels.providers, labels.tools, labels.workflows, labels.steps,
    labels.flows, labels.cases].any (fun group => decide (text ∈ group.1)) ||
    decide (text ∈ labels.conditions.1)

/-- An execution id, a condition location, or the response model of a configured model. -/
def isDeclared (text : String) : Bool :=
  isExecutionId text || isLocation text || isResponseModel labels text

/-- A text that is configured, fixed, a key or of a declared form. -/
def isPublic (text : String) : Bool :=
  isConfigured labels text || WORDS.contains text || (knownKeys labels).contains text ||
    isDeclared labels text

/-- A text that a trace must not tell. -/
def Content (text : String) : Prop := isPublic labels text = false

instance (text : String) : Decidable (Content labels text) :=
  inferInstanceAs (Decidable (isPublic labels text = false))

/-- Some text of the value is content. -/
inductive HasContent : AttributeValue → Prop
  | str {text : String} (content : Content labels text) : HasContent (.str text)
  | tuple {items : List AttributeValue} {item : AttributeValue} (mem : item ∈ items)
      (content : HasContent item) : HasContent (.tuple items)
  | other {texts : List String} {text : String} (mem : text ∈ texts) (content : Content labels text) :
      HasContent (.other texts)

/-! ## Spans that differ in content -/

/-- The same public values under public keys. -/
def AttributesAlike (attributes attributes' : Attributes) : Prop :=
  ∀ key, ¬ Content labels key → ∀ value, ¬ HasContent labels value →
    (attributes.lookup key = some value ↔ attributes'.lookup key = some value)

/-- Two events that differ in content only. -/
structure EventsAlike (event event' : SpanEvent) : Prop where
  name : event.name = event'.name ∨ (Content labels event.name ∧ Content labels event'.name)
  attributes : AttributesAlike labels event.attributes event'.attributes
  timestamp : event.timestamp = event'.timestamp

/-- What identifies a span. -/
def SpanContext.ids (context : SpanContext) : ℕ × ℕ × Bool × ℕ :=
  (context.traceId, context.spanId, context.isRemote, context.traceFlags)

/-- The spans agree on ids, times, kind, status code and the numbers of links and events. Their names,
descriptions and link attributes are any text, and everything else differs in content at most. -/
structure SpansAlike (span span' : ReadableSpan) : Prop where
  context : span.context.map SpanContext.ids = span'.context.map SpanContext.ids
  parent : span.parent.map SpanContext.ids = span'.parent.map SpanContext.ids
  links : span.links.map (fun link => link.context.map SpanContext.ids) =
    span'.links.map fun link => link.context.map SpanContext.ids
  kind : span.kind = span'.kind
  code : span.status.code = span'.status.code
  startTime : span.startTime = span'.startTime
  endTime : span.endTime = span'.endTime
  resource : AttributesAlike labels span.resource.attributes span'.resource.attributes
  attributes : AttributesAlike labels span.attributes span'.attributes
  events : List.Forall₂ (EventsAlike labels) span.events span'.events
  scope : ∀ name, ¬ Content labels name →
    (span.scope.map InstrumentationScope.name = some name ↔
      span'.scope.map InstrumentationScope.name = some name)

/-- One entry with its key or its value replaced, content by content. -/
inductive EntryReplaced : String × AttributeValue → String × AttributeValue → Prop
  | same (entry : String × AttributeValue) : EntryReplaced entry entry
  | key {key key' : String} {value value' : AttributeValue} (content : Content labels key)
      (content' : Content labels key') : EntryReplaced (key, value) (key', value')
  | value {key : String} {value value' : AttributeValue} (content : HasContent labels value)
      (content' : HasContent labels value') : EntryReplaced (key, value) (key, value')

end Content

section Alike

variable {labels : TelemetryLabels}

/-- Attributes with replaced content are alike. -/
theorem AttributesAlike.of_replaced {attributes attributes' : Attributes}
    (replaced : List.Forall₂ (EntryReplaced labels) attributes attributes') :
    AttributesAlike labels attributes attributes' := by
  intro key public_ value clean
  induction replaced with
  | nil => exact Iff.rfl
  | @cons entry entry' rest rest' head _ ih =>
    cases head with
    | same =>
      rw [List.lookup_cons, List.lookup_cons]
      split
      · exact Iff.rfl
      · exact ih
    | key content content' =>
      have other {found : String} (secret : Content labels found) : (key == found) = false :=
        beq_eq_false_iff_ne.mpr fun same => public_ (same ▸ secret)
      rw [List.lookup_cons, List.lookup_cons, other content, other content']
      exact ih
    | value content content' =>
      rw [List.lookup_cons, List.lookup_cons]
      split
      · refine ⟨fun same => ?_, fun same => ?_⟩
        · obtain rfl := Option.some.inj same
          exact absurd content clean
        · obtain rfl := Option.some.inj same
          exact absurd content' clean
      · exact ih

/-! ## Rules keep public values -/

/-- What is no content. -/
theorem not_content {text : String} : ¬ Content labels text ↔
    isConfigured labels text = true ∨ text ∈ WORDS ∨ text ∈ knownKeys labels ∨
      isDeclared labels text = true := by
  rw [Content, Bool.not_eq_false, isPublic]
  simp [or_assoc]

/-- A test that content does not pass. -/
def CleanTest (labels : TelemetryLabels) (test : AttributeValue → Bool) : Prop :=
  ∀ value, test value = true → ¬ HasContent labels value

/-- A test that no content passes. -/
theorem clean_textThat {test : String → Bool}
    (known : ∀ text, test text = true → ¬ Content labels text) :
    CleanTest labels (textThat test) := by
  rintro value passes (⟨content⟩ | _ | _)
  · exact known _ passes content
  · cases passes
  · cases passes

/-- Fixed words are a test of texts. -/
theorem oneOf_eq (words : List String) : oneOf words = textThat words.contains := by
  funext value
  cases value <;> rfl

/-- Declared labels are a test of texts. -/
theorem labelled_eq (group : LabelSet) :
    labelled group = textThat fun text => decide (text ∈ group.1) := by
  funext value
  cases value <;> rfl

/-- A word of a vocabulary is a fixed word. -/
theorem mem_words {words : List String} (known : words ∈ VOCABULARIES) {text : String}
    (mem : text ∈ words) : text ∈ WORDS :=
  List.mem_flatten.mpr ⟨words, known, mem⟩

/-- No content is a fixed word. -/
theorem clean_oneOf {words : List String} (known : words ∈ VOCABULARIES) :
    CleanTest labels (oneOf words) := by
  rw [oneOf_eq]
  exact clean_textThat fun text passes =>
    not_content.mpr (.inr (.inl (mem_words known (List.contains_iff_mem.mp passes))))

/-- No content is a declared label. -/
theorem clean_labelled {group : LabelSet}
    (known : ∀ text ∈ group.1, isConfigured labels text = true) :
    CleanTest labels (labelled group) := by
  rw [labelled_eq]
  exact clean_textThat fun text passes =>
    not_content.mpr (.inl (known text (of_decide_eq_true passes)))

/-- No content is a declared label or a fixed word. -/
theorem clean_labelledOr {group : LabelSet} {words : List String}
    (configured : ∀ text ∈ group.1, isConfigured labels text = true) (known : words ∈ VOCABULARIES) :
    CleanTest labels (labelledOr group words) := by
  intro value passes
  rcases Bool.or_eq_true_iff.mp passes with label | word
  · exact clean_labelled configured value label
  · exact clean_oneOf known value word

/-- A range of integers tells no text. -/
theorem clean_within (low high : ℤ) : CleanTest labels (within low high) := by
  rintro value passes (_ | _ | _) <;> cases passes

/-- The value true tells no text. -/
theorem clean_isTrue : CleanTest labels isTrue := by
  rintro value passes (_ | _ | _) <;> cases passes

/-- Truth values tell no text. -/
theorem clean_isBool : CleanTest labels isBool := by
  rintro value passes (_ | _ | _) <;> cases passes

/-- Costs tell no text. -/
theorem clean_isCost : CleanTest labels isCost := by
  rintro value passes (_ | _ | _) <;> cases passes

/-- A tuple of words has no content. -/
theorem clean_words {words : List String} (known : words ∈ VOCABULARIES) {items : List AttributeValue}
    (all : items.all (oneOf words) = true) : ¬ HasContent labels (.tuple items) := by
  rintro (_ | ⟨mem, content⟩ | _)
  exact clean_oneOf known _ (List.all_eq_true.mp all _ mem) content

/-- Finish reasons tell fixed words only. -/
theorem clean_areFinishReasons : CleanTest labels areFinishReasons := by
  intro value passes
  cases value with
  | tuple items =>
    exact clean_words (by simp [VOCABULARIES]) (Bool.and_eq_true_iff.mp passes).2
  | _ => cases passes

/-- Issues tell fixed words only. -/
theorem clean_areIssues : CleanTest labels areIssues := by
  intro value passes
  cases value with
  | tuple items => exact clean_words (by simp [VOCABULARIES]) passes
  | _ => cases passes

/-! ## The tables of rules -/

/-- A configured group belongs to the labels. -/
theorem configured_group {group : LabelSet} {text : String} (mem : text ∈ group.1)
    (own : group ∈ [labels.services, labels.models, labels.providers, labels.tools, labels.workflows,
      labels.steps, labels.flows, labels.cases]) : isConfigured labels text = true := by
  unfold isConfigured
  rw [List.any_eq_true.mpr ⟨group, own, decide_eq_true mem⟩, Bool.true_or]

/-- Each group of labels tells configured labels only. -/
theorem clean_group {group : LabelSet} (own : group ∈ [labels.services, labels.models,
    labels.providers, labels.tools, labels.workflows, labels.steps, labels.flows, labels.cases]) :
    CleanTest labels (labelled group) :=
  clean_labelled fun _ mem => configured_group mem own

/-- The labelled attributes tell configured labels only. -/
theorem clean_stringAttributes :
    ∀ entry ∈ STRING_ATTRIBUTES labels, CleanTest labels (labelled entry.2) := by
  intro entry mem
  refine clean_group ?_
  simp only [STRING_ATTRIBUTES, List.mem_cons, List.not_mem_nil, or_false] at mem
  rcases mem with rfl | rfl | rfl | rfl | rfl | rfl | rfl | rfl | rfl | rfl <;> simp

/-- A declared form tells no content. -/
theorem clean_declared {test : String → Bool}
    (declared : ∀ text, test text = true → isDeclared labels text = true) :
    CleanTest labels (textThat test) :=
  clean_textThat fun text passes => not_content.mpr (.inr (.inr (.inr (declared text passes))))

/-- Execution identifiers have a declared form. -/
theorem declared_execution (text : String) (passes : isExecutionId text = true) :
    isDeclared labels text = true := by
  rw [isDeclared, passes, Bool.true_or, Bool.true_or]

/-- Locations have a declared form. -/
theorem declared_location (text : String) (passes : isLocation text = true) :
    isDeclared labels text = true := by
  rw [isDeclared, passes, Bool.or_true, Bool.true_or]

/-- Response models have a declared form. -/
theorem declared_model (text : String) (passes : isResponseModel labels text = true) :
    isDeclared labels text = true := by
  rw [isDeclared, passes, Bool.or_true]

/-- No attribute rule passes content. -/
theorem clean_attributeRules : ∀ rule ∈ attributeRules labels, CleanTest labels rule.passes := by
  intro rule mem
  unfold attributeRules at mem
  rcases List.mem_append.mp mem with mem | mem
  · rcases List.mem_append.mp mem with mem | mem
    · rcases List.mem_append.mp mem with mem | mem
      · obtain ⟨entry, listed, rfl⟩ := List.mem_map.mp mem
        exact clean_stringAttributes entry listed
      · simp only [List.mem_cons, List.not_mem_nil, or_false] at mem
        rcases mem with rfl | rfl | rfl | rfl | rfl | rfl | rfl | rfl | rfl | rfl
        · exact clean_declared declared_model
        · exact clean_oneOf (by simp [VOCABULARIES])
        · exact clean_isCost
        · exact clean_oneOf (by simp [VOCABULARIES])
        · exact clean_oneOf (by simp [VOCABULARIES])
        · exact clean_oneOf (by simp [VOCABULARIES])
        · exact clean_oneOf (by simp [VOCABULARIES])
        · exact clean_areFinishReasons
        · exact clean_isBool
        · exact clean_isTrue
    · obtain ⟨key, -, rfl⟩ := List.mem_map.mp mem
      exact clean_within 0 MAX_COUNT
  · simp only [List.mem_cons, List.not_mem_nil, or_false] at mem
    rcases mem with rfl | rfl | rfl | rfl | rfl | rfl
    · exact clean_oneOf (by simp [VOCABULARIES])
    · exact clean_within 1 64
    · exact clean_within 2 64
    · exact clean_within 0 1023
    · exact clean_isTrue
    · exact clean_declared declared_execution

/-- No rule of an event passes content. -/
theorem clean_eventForm {name : String} {needed : Option String} {rules : List AttributeRule}
    (form : eventForm labels name = some (needed, rules)) :
    name ∈ EVENTS ∧ ∀ rule ∈ rules, CleanTest labels rule.passes := by
  have conditions : CleanTest labels (textThat fun text => decide (text ∈ labels.conditions.1)) := by
    refine clean_textThat fun text passes => not_content.mpr (.inl ?_)
    rw [isConfigured, passes, Bool.or_true]
  have location : CleanTest labels (textThat isLocation) := clean_declared declared_location
  unfold eventForm at form
  split at form
  case isTrue selected =>
    obtain ⟨-, rfl⟩ := Prod.mk.inj (Option.some.inj form)
    refine ⟨selected ▸ by decide, ?_⟩
    simp only [List.forall_mem_cons, List.not_mem_nil, false_implies, implies_true, and_true]
    exact ⟨clean_oneOf (by simp [VOCABULARIES]),
      clean_labelledOr (fun _ mem => configured_group mem (by simp)) (by simp [VOCABULARIES]),
      clean_within 0 31,
      clean_labelledOr (fun _ mem => configured_group mem (by simp)) (by simp [VOCABULARIES])⟩
  split at form
  case isTrue stopped =>
    obtain ⟨-, rfl⟩ := Prod.mk.inj (Option.some.inj form)
    exact ⟨stopped ▸ by decide, List.forall_mem_singleton.mpr (clean_oneOf (by simp [VOCABULARIES]))⟩
  split at form
  case isTrue skipped =>
    obtain ⟨-, rfl⟩ := Prod.mk.inj (Option.some.inj form)
    exact ⟨skipped ▸ by decide, List.forall_mem_singleton.mpr conditions⟩
  split at form
  case isTrue evaluated =>
    obtain ⟨-, rfl⟩ := Prod.mk.inj (Option.some.inj form)
    refine ⟨evaluated ▸ by decide, ?_⟩
    simp only [List.forall_mem_cons, List.not_mem_nil, false_implies, implies_true, and_true]
    exact ⟨location, clean_isBool⟩
  split at form
  case isTrue mismatch =>
    obtain ⟨-, rfl⟩ := Prod.mk.inj (Option.some.inj form)
    refine ⟨mismatch ▸ by decide, ?_⟩
    simp only [List.forall_mem_cons, List.not_mem_nil, false_implies, implies_true, and_true]
    exact ⟨location, clean_oneOf (by simp [VOCABULARIES]), clean_oneOf (by simp [VOCABULARIES])⟩
  split at form
  case isTrue review =>
    obtain ⟨-, rfl⟩ := Prod.mk.inj (Option.some.inj form)
    exact ⟨review ▸ by decide, List.forall_mem_singleton.mpr clean_areIssues⟩
  cases form

/-- No key of a rule is content. -/
theorem attribute_key {rule : AttributeRule} (mem : rule ∈ attributeRules labels) :
    ¬ Content labels rule.key :=
  not_content.mpr (.inr (.inr (.inl (List.mem_append_left _ (List.mem_map_of_mem mem)))))

/-- No key of an event's rule is content. -/
theorem event_key {name : String} {needed : Option String} {rules : List AttributeRule}
    (form : eventForm labels name = some (needed, rules)) {rule : AttributeRule}
    (mem : rule ∈ rules) :
    ¬ Content labels rule.key := by
  refine not_content.mpr (.inr (.inr (.inl (List.mem_append_right _ (List.mem_flatMap.mpr
    ⟨name, (clean_eventForm form).1, ?_⟩)))))
  rw [form]
  exact List.mem_map_of_mem mem

/-! ## Spans are exported alike -/

/-- Clean rules under public keys cannot tell alike attributes apart. -/
theorem sanitize_alike {rules : List AttributeRule} {attributes attributes' : Attributes}
    (keys : ∀ rule ∈ rules, ¬ Content labels rule.key)
    (clean : ∀ rule ∈ rules, CleanTest labels rule.passes)
    (alike : AttributesAlike labels attributes attributes') :
    sanitize rules attributes = sanitize rules attributes' :=
  sanitize_congr fun rule mem => Rule.value_congr fun value passes =>
    alike rule.key (keys rule mem) value (clean rule mem value passes)

/-- Attributes that differ in content only pass as the same. -/
theorem safeAttributes_alike {attributes attributes' : Attributes}
    (alike : AttributesAlike labels attributes attributes') :
    safeAttributes labels attributes = safeAttributes labels attributes' :=
  sanitize_alike (fun _ => attribute_key) clean_attributeRules alike

/-- Event attributes that differ in content only pass as the same. -/
theorem safeEventAttributes_alike (name : String) {attributes attributes' : Attributes}
    (alike : AttributesAlike labels attributes attributes') :
    safeEventAttributes labels name attributes = safeEventAttributes labels name attributes' := by
  unfold safeEventAttributes
  rcases form : eventForm labels name with _ | ⟨needed, rules⟩
  · rfl
  · have same : sanitize rules attributes = sanitize rules attributes' :=
      sanitize_alike (fun _ => event_key form) (clean_eventForm form).2 alike
    simp only [same]

/-- An event whose name is content is dropped. -/
theorem safeEventAttributes_content {name : String} (content : Content labels name)
    (attributes : Attributes) : safeEventAttributes labels name attributes = none := by
  unfold safeEventAttributes
  rcases form : eventForm labels name with _ | ⟨needed, rules⟩
  · rfl
  · have word : name ∈ WORDS := mem_words (by simp [VOCABULARIES]) (clean_eventForm form).1
    exact absurd content (not_content.mpr (.inr (.inl word)))

/-- Events that differ in content only pass as the same. -/
theorem safeEvents_alike {events events' : List SpanEvent}
    (alike : List.Forall₂ (EventsAlike labels) events events') :
    safeEvents labels events = safeEvents labels events' := by
  have exported {event event' : SpanEvent} (alike : EventsAlike labels event event') :
      ((safeEventAttributes labels event.name event.attributes).map fun safe =>
        ({ name := event.name, attributes := safe, timestamp := event.timestamp } : SpanEvent)) =
      (safeEventAttributes labels event'.name event'.attributes).map fun safe =>
        { name := event'.name, attributes := safe, timestamp := event'.timestamp } := by
    rcases alike.name with same | ⟨content, content'⟩
    · rw [same, safeEventAttributes_alike _ alike.attributes, alike.timestamp]
    · rw [safeEventAttributes_content content, safeEventAttributes_content content']
      rfl
  unfold safeEvents
  have taken := List.forall₂_take MAX_EVENTS alike
  generalize events.take MAX_EVENTS = front at taken ⊢
  generalize events'.take MAX_EVENTS = front' at taken ⊢
  induction taken with
  | nil => rfl
  | cons head _ ih => rw [List.filterMap_cons, List.filterMap_cons, exported head, ih]

/-- Resources that differ in content only pass as the same. -/
theorem safeResource_alike {resource resource' : Resource}
    (alike : AttributesAlike labels resource.attributes resource'.attributes) :
    safeResource labels resource = safeResource labels resource' := by
  have service : ∀ rule ∈ [(⟨"service.name", labelled labels.services⟩ : AttributeRule)],
      ¬ Content labels rule.key ∧ CleanTest labels rule.passes := by
    refine List.forall_mem_singleton.mpr ⟨?_, clean_group List.mem_cons_self⟩
    exact @attribute_key labels ⟨"service.name", labelled labels.services⟩ List.mem_cons_self
  unfold safeResource
  rw [sanitize_alike (fun rule mem => (service rule mem).1)
    (fun rule mem => (service rule mem).2) alike]

/-- A context is cleaned to what identifies it. -/
theorem cleanContext_ids {context context' : Option SpanContext}
    (same : context.map SpanContext.ids = context'.map SpanContext.ids) :
    cleanContext context = cleanContext context' := by
  have rebuilt (context : Option SpanContext) : cleanContext context =
      (context.map SpanContext.ids).map fun ids => ⟨ids.1, ids.2.1, ids.2.2.1, ids.2.2.2, []⟩ := by
    cases context <;> rfl
  rw [rebuilt, rebuilt, same]

/-- Links pass by their identifiers only. -/
theorem safeLinks_ids {links links' : List Link}
    (same : links.map (fun link => link.context.map SpanContext.ids) =
      links'.map fun link => link.context.map SpanContext.ids) :
        safeLinks links = safeLinks links' := by
  induction links generalizing links' with
  | nil =>
    rw [List.map_nil] at same
    rw [List.map_eq_nil_iff.mp same.symm]
  | cons link rest ih =>
    cases links' with
    | nil => cases same
    | cons link' rest' =>
      rw [List.map_cons, List.map_cons] at same
      obtain ⟨head, tail⟩ := List.cons.inj same
      have others : safeLinks rest = safeLinks rest' := ih tail
      unfold safeLinks at others ⊢
      rw [List.filterMap_cons, List.filterMap_cons, cleanContext_ids head, others]

/-- Scopes that differ in content only pass as the same. -/
theorem safeScopeName_alike {span span' : ReadableSpan}
    (alike : ∀ name, ¬ Content labels name → (span.scope.map InstrumentationScope.name = some name ↔
      span'.scope.map InstrumentationScope.name = some name)) :
    safeScopeName span = safeScopeName span' := by
  have known (span : ReadableSpan) : safeScopeName span =
      ((span.scope.map InstrumentationScope.name).filter SCOPES.contains).getD "external" := by
    unfold safeScopeName
    cases span.scope with
    | none => rfl
    | some scope =>
      simp only [Option.map_some, Option.filter_some]
      split <;> rfl
  rw [known, known]
  congr 1
  refine Option.ext fun name => ?_
  rw [Option.filter_eq_some_iff, Option.filter_eq_some_iff]
  refine and_congr_left fun scope => alike name ?_
  have word : name ∈ WORDS := mem_words (by simp [VOCABULARIES]) (List.contains_iff_mem.mp scope)
  exact not_content.mpr (.inr (.inl word))

/-- Two spans that differ in content are exported as one and the same span. -/
theorem safeSpan_alike {span span' : ReadableSpan} (alike : SpansAlike labels span span') :
    safeSpan labels span = safeSpan labels span' := by
  unfold safeSpan
  rw [safeScopeName_alike alike.scope, safeAttributes_alike alike.attributes, alike.code,
    cleanContext_ids alike.context, cleanContext_ids alike.parent, safeResource_alike alike.resource,
    safeEvents_alike alike.events, safeLinks_ids alike.links, alike.kind,
      alike.startTime, alike.endTime]

/-! ## Sanitizing again -/

/-- The keys of the rules do not depend on the labels. -/
theorem attributeRules_keys (labels other : TelemetryLabels) :
    (attributeRules labels).map Rule.key = (attributeRules other).map Rule.key := rfl

/-- No attribute has two rules. -/
theorem attributeRules_nodup : ((attributeRules labels).map Rule.key).Nodup := by
  rw [attributeRules_keys labels DEFAULT_LABELS]
  decide +kernel

/-- The keys of an event differ. -/
theorem eventForm_nodup {name : String} {needed : Option String} {rules : List AttributeRule}
    (form : eventForm labels name = some (needed, rules)) : (rules.map Rule.key).Nodup := by
  unfold eventForm at form
  repeat
    split at form
    case isTrue =>
      obtain ⟨-, rfl⟩ := Prod.mk.inj (Option.some.inj form)
      simp
  cases form

/-- Attributes that passed pass again. -/
theorem safeAttributes_again (attributes : Attributes) :
    safeAttributes labels (safeAttributes labels attributes) = safeAttributes labels attributes :=
  sanitize_sanitize attributeRules_nodup attributes

/-- Event attributes that passed pass again. -/
theorem safeEventAttributes_again {name : String} {attributes safe : Attributes}
    (exported : safeEventAttributes labels name attributes = some safe) :
    safeEventAttributes labels name safe = some safe := by
  unfold safeEventAttributes at exported ⊢
  rcases form : eventForm labels name with _ | ⟨needed, rules⟩
  · rw [form] at exported
    cases exported
  · rw [form] at exported
    dsimp only at exported ⊢
    split at exported
    case isTrue present =>
      obtain rfl := Option.some.inj exported
      rw [sanitize_sanitize (eventForm_nodup form), if_pos present]
    case isFalse => cases exported

/-- The rule of the error's type. -/
def errorRule : AttributeRule := ⟨"error.type", oneOf ERROR_TYPES⟩

/-- The error's type may pass. -/
theorem errorRule_mem : errorRule ∈ attributeRules labels := by
  unfold attributeRules
  refine List.mem_append_left _ (List.mem_append_left _ (List.mem_append_right _ ?_))
  simp [errorRule]

/-- The attributes of an exported span, with the error type of a failed one, pass again. -/
theorem safeAttributes_withErrorType (code : StatusCode) (attributes : Attributes) (key : String) :
    (safeAttributes labels (withErrorType code (safeAttributes labels attributes))).lookup key =
      (withErrorType code (safeAttributes labels attributes)).lookup key := by
  by_cases missing : code = .error ∧ (safeAttributes labels attributes).lookup "error.type" = none
  swap
  · have kept : withErrorType code (safeAttributes labels attributes) =
        safeAttributes labels attributes := if_neg missing
    rw [kept, safeAttributes_again]
  have added : withErrorType code (safeAttributes labels attributes) =
      safeAttributes labels attributes ++
      [("error.type", .str ErrorCode.dependencyFailure.value)] := if_pos missing
  rw [added]
  by_cases own : key = "error.type"
  · subst own
    have distinct : ((attributeRules labels).map Rule.key).Nodup := attributeRules_nodup
    have kept := lookup_sanitize distinct errorRule_mem
      (safeAttributes labels attributes ++ [("error.type", .str ErrorCode.dependencyFailure.value)])
    have value : (safeAttributes labels attributes ++
        [("error.type", AttributeValue.str ErrorCode.dependencyFailure.value)]).lookup "error.type" =
          some (.str ErrorCode.dependencyFailure.value) := by
      rw [List.lookup_append, missing.2]
      rfl
    have passes : errorRule.passes (.str ErrorCode.dependencyFailure.value) = true := by
      decide +kernel
    rw [value]
    exact kept.trans (Rule.value_eq_some.mpr ⟨value, passes⟩)
  · -- the added entry is under another key, which is filtered as before
    have other : (safeAttributes labels attributes ++
        [("error.type", AttributeValue.str ErrorCode.dependencyFailure.value)]).lookup key =
          (safeAttributes labels attributes).lookup key := by
      rw [List.lookup_append, List.lookup_cons, beq_eq_false_iff_ne.mpr own]
      exact Option.or_none
    rw [other]
    by_cases ruled : key ∈ (attributeRules labels).map Rule.key
    · obtain ⟨rule, mem, rfl⟩ := List.mem_map.mp ruled
      have again := congrArg (List.lookup rule.key) (@safeAttributes_again labels attributes)
      unfold safeAttributes at again other ⊢
      rw [lookup_sanitize attributeRules_nodup mem] at again
      rw [lookup_sanitize attributeRules_nodup mem, Rule.value, other]
      exact again
    · unfold safeAttributes
      rw [lookup_sanitize_none _ ruled, lookup_sanitize_none _ ruled]

/-- Spans that differ in content are exported alike, and sanitizing again changes nothing. -/
theorem export_content_free (labels : TelemetryLabels) :
    (∀ span span', SpansAlike labels span span' → safeSpan labels span = safeSpan labels span') ∧
    (∀ attributes,
      safeAttributes labels (safeAttributes labels attributes) = safeAttributes labels attributes) ∧
    (∀ span key, (safeAttributes labels (safeSpan labels span).attributes).lookup key =
      (safeSpan labels span).attributes.lookup key) ∧
    ∀ name attributes safe, safeEventAttributes labels name attributes = some safe →
      safeEventAttributes labels name safe = some safe :=
  ⟨fun _ _ => safeSpan_alike, safeAttributes_again,
    fun span key => safeAttributes_withErrorType span.status.code span.attributes key,
    fun _ _ _ => safeEventAttributes_again⟩

end Alike

/-! ## A span with a prompt -/

/-- A failed model request with a text in every place that is not exported. -/
def promptSpan (text : String) : ReadableSpan where
  name := text
  context := some ⟨1, 2, false, 1, [("private", text)]⟩
  parent := none
  resource := ⟨[("host.name", .str text)], text⟩
  attributes := [("gen_ai.operation.name", .str "chat"), ("gen_ai.request.model", .str text),
    ("gen_ai.usage.input_tokens", .int 12), ("gen_ai.response.finish_reasons", .tuple [.str text]),
    (text, .str text)]
  events := [⟨"route.selected", [("kind", .str "cases"), ("case", .str text)], 3⟩, ⟨text, [], 4⟩]
  links := [⟨some ⟨4, 5, true, 1, []⟩, [("private", .str text)]⟩]
  kind := .client
  status := ⟨.error, some text⟩
  startTime := some 10
  endTime := some 20
  scope := some ⟨"pydantic-ai", some text, some text, []⟩

/-- Two spans whose names are content differ in content only. -/
theorem promptSpan_alike {text text' : String} (content : Content DEFAULT_LABELS text)
    (content' : Content DEFAULT_LABELS text') :
    SpansAlike DEFAULT_LABELS (promptSpan text) (promptSpan text') where
  context := rfl
  parent := rfl
  links := rfl
  kind := rfl
  code := rfl
  startTime := rfl
  endTime := rfl
  resource := .of_replaced (.cons (.value (.str content) (.str content')) .nil)
  attributes := .of_replaced (.cons (.same _) (.cons (.value (.str content) (.str content'))
    (.cons (.same _) (.cons (.value (.tuple List.mem_cons_self (.str content))
      (.tuple List.mem_cons_self (.str content'))) (.cons (.key content content') .nil)))))
  events := .cons ⟨.inl rfl, .of_replaced (.cons (.same _)
      (.cons (.value (.str content) (.str content')) .nil)), rfl⟩
    (.cons ⟨.inr ⟨content, content'⟩, .of_replaced .nil, rfl⟩ .nil)
  scope _ _ := Iff.rfl

/-- Two customers' prompts give one exported span. -/
theorem prompts_alike :
    (safeSpan DEFAULT_LABELS (promptSpan "Refund order 17 for Ada!") =
      safeSpan DEFAULT_LABELS (promptSpan "Cancel order 4 for Bo!")) ∧
    (safeSpan DEFAULT_LABELS (promptSpan "Cancel order 4 for Bo!")).name = "chat" ∧
    safeEventAttributes DEFAULT_LABELS "repeat.stopped" [("stopped_by", .str "review")] =
      some [("stopped_by", .str "review")] :=
  ⟨(export_content_free DEFAULT_LABELS).1 _ _
      (promptSpan_alike (by decide +kernel) (by decide +kernel)),
    by decide +kernel,
    (export_content_free DEFAULT_LABELS).2.2.2 "repeat.stopped"
      [("stopped_by", .str "review"), ("text", .str "Ada")] _ rfl⟩

end Foliqant.Adapters.Telemetry
