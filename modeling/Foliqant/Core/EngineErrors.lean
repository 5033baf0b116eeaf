import Foliqant.Common.Fallible
import Foliqant.Core.Runner

/-!
# Errors of the engine itself

Bindings, conditions, routes and envelopes fail with one of a few codes, whatever the data.
-/

namespace Foliqant.Core

open JsonText

/-- Codes that bindings, conditions and routes fail with. -/
def engineCodes : List ErrorCode := [.invalidConfiguration, .invalidInput, .missingBinding]

/-- An error of a binding, a condition or a route. -/
def EngineError (error : Exn) : Prop := ∃ code ∈ engineCodes, error = .service code.error

namespace EngineError

/-- A failure with a code of the engine. -/
theorem of_fail {α : Type} {code : ErrorCode} {error : Exn} (mem : code ∈ engineCodes)
    (h : (fail code : Except Exn α) = .error error) : EngineError error := by
  cases h
  exact ⟨code, mem, rfl⟩

/-- An invalid configuration. -/
theorem of_configuration {α : Type} {error : Exn}
    (h : (fail .invalidConfiguration : Except Exn α) = .error error) : EngineError error :=
  of_fail (by simp [engineCodes]) h

/-- An invalid input. -/
theorem of_input {α : Type} {error : Exn} (h : (fail .invalidInput : Except Exn α) = .error error) :
    EngineError error :=
  of_fail (by simp [engineCodes]) h

end EngineError

/-! ## Bindings -/

/-- A value that is too deep. -/
theorem freezeJson_error {maxDepth : ℕ} {value : Json} {error : Exn}
    (h : freezeJson maxDepth value = .error error) : EngineError error := by
  unfold freezeJson at h
  split at h
  · exact .of_input h
  · cases h

/-- A pointer that cannot be read. -/
theorem lookupPointer_error {pointer : String} {context : Json} {error : Exn}
    (h : lookupPointer pointer context = .error error) : EngineError error := by
  unfold lookupPointer at h
  split_ifs at h
  exact .of_configuration h

/-- Candidates that cannot be read. -/
theorem lookupMembers_error {context : Json} {members : List String} {error : Exn}
    (h : lookupMembers context members = .error error) : EngineError error := by
  induction members with
  | nil => cases h
  | cons member rest ih =>
    unfold lookupMembers at h
    rcases Except.bind_eq_error.mp h with h | ⟨found, -, h⟩
    · exact lookupPointer_error h
    rcases Except.bind_eq_error.mp h with h | ⟨others, -, h⟩
    · exact ih h
    · cases h

/-- What a binding makes of the value found. -/
theorem resolveFound_error {found default : Option Json} {error : Exn}
    (h : resolveFound found default = .error error) : EngineError error := by
  cases found with
  | some value => cases h
  | none =>
    cases default with
    | some value => exact freezeJson_error h
    | none => exact .of_fail (by simp [engineCodes]) h

mutual

/-- A binding. -/
theorem resolveBinding_error {context : Json} {binding : BindingPlan} {error : Exn}
    (h : resolveBinding context binding = .error error) : EngineError error := by
  cases binding with
  | literal value =>
    rw [resolveBinding] at h
    exact freezeJson_error h
  | pointer path default =>
    rw [resolveBinding] at h
    rcases Except.bind_eq_error.mp h with h | ⟨found, -, h⟩
    · exact lookupPointer_error h
    · exact resolveFound_error h
  | firstOf members default =>
    rw [resolveBinding] at h
    split_ifs at h
    · exact .of_configuration h
    · rcases Except.bind_eq_error.mp h with h | ⟨found, -, h⟩
      · exact lookupMembers_error h
      · exact resolveFound_error h
  | fields entries =>
    cases entries with
    | nil =>
      rw [resolveBinding] at h
      exact .of_configuration h
    | cons entry entries =>
      rw [resolveBinding] at h
      rcases Except.bind_eq_error.mp h with h | ⟨values, -, h⟩
      · exact resolveBindingsFrom_error h
      · cases h

/-- Bindings, one after the other. -/
theorem resolveBindingsFrom_error {context : Json} {values : Object} {bindings : Bindings}
    {error : Exn} (h : resolveBindingsFrom context values bindings = .error error) :
    EngineError error := by
  cases bindings with
  | nil =>
    rw [resolveBindingsFrom] at h
    cases h
  | cons entry rest =>
    obtain ⟨name, binding⟩ := entry
    rw [resolveBindingsFrom] at h
    split_ifs at h
    · exact .of_configuration h
    · rcases Except.bind_eq_error.mp h with h | ⟨value, -, h⟩
      · exact resolveBinding_error h
      · exact resolveBindingsFrom_error h

end

/-- The source of a condition. -/
theorem resolveSource_error {context : Json} {binding : BindingPlan} {error : Exn}
    (h : resolveSource binding context = .error error) : EngineError error := by
  unfold resolveSource at h
  split at h
  · rcases Except.bind_eq_error.mp h with h | ⟨value, -, h⟩
    · exact freezeJson_error h
    · cases h
  · rcases Except.bind_eq_error.mp h with h | ⟨value, -, h⟩
    · exact lookupPointer_error h
    · cases h
  · split_ifs at h
    · exact .of_configuration h
    · rcases Except.bind_eq_error.mp h with h | ⟨value, -, h⟩
      · exact lookupMembers_error h
      · cases h
  · exact .of_configuration h

/-! ## Conditions -/

/-- A comparison with a truth value. -/
theorem flagLeaf_error {flag : Bool} {operand : Json} {error : Exn}
    (h : flagLeaf flag operand = .error error) : EngineError error := by
  unfold flagLeaf at h
  split at h
  · cases h
  · exact .of_configuration h

/-- A test of membership. -/
theorem memberLeaf_error {value : Option Json} {operand : Json} {error : Exn}
    (h : memberLeaf value operand = .error error) : EngineError error := by
  unfold memberLeaf at h
  split at h
  · exact .of_configuration h
  · cases h
  · exact .of_configuration h

/-- A comparison of numbers. -/
theorem compareLeaf_error {comparison : Comparison} {operand : Json} {value : Option Json}
    {error : Exn} (h : compareLeaf comparison operand value = .error error) : EngineError error := by
  unfold compareLeaf at h
  split at h
  · exact .of_configuration h
  · cases h

/-- A leaf. -/
theorem evaluateLeaf_error {tables : Compiler.CharTables} {leaf : LeafConditionPlan} {context : Json}
    {error : Exn} (h : evaluateLeaf tables leaf context = .error error) : EngineError error := by
  unfold evaluateLeaf at h
  rcases Except.bind_eq_error.mp h with h | ⟨value, -, h⟩
  · exact resolveSource_error h
  cases operator : leaf.operator with
  | present | empty =>
    rw [operator] at h
    exact flagLeaf_error h
  | equals | notEquals =>
    rw [operator] at h
    cases h
  | isIn =>
    rw [operator] at h
    exact memberLeaf_error h
  | notIn =>
    rw [operator] at h
    rcases Except.bind_eq_error.mp h with h | ⟨met, -, h⟩
    · exact memberLeaf_error h
    · cases h
  | gt | gte | lt | lte =>
    rw [operator] at h
    exact compareLeaf_error h
  | «matches» | length =>
    simp only [operator] at h
    split at h
    · cases h
    · exact .of_configuration h

mutual

/-- A condition. -/
theorem evaluateCondition_error {tables : Compiler.CharTables} {context : Json}
    {condition : ConditionPlan} {error : Exn}
    (h : evaluateCondition tables context condition = .error error) : EngineError error := by
  cases condition with
  | leaf leaf =>
    rw [evaluateCondition] at h
    exact evaluateLeaf_error h
  | all operands =>
    cases operands with
    | nil =>
      rw [evaluateCondition] at h
      exact .of_configuration h
    | cons operand rest =>
      rw [evaluateCondition] at h
      exact evaluateAll_error h
  | any operands =>
    cases operands with
    | nil =>
      rw [evaluateCondition] at h
      exact .of_configuration h
    | cons operand rest =>
      rw [evaluateCondition] at h
      exact evaluateAny_error h
  | not operand =>
    rw [evaluateCondition] at h
    rcases Except.bind_eq_error.mp h with h | ⟨met, -, h⟩
    · exact evaluateCondition_error h
    · cases h

/-- All of several conditions. -/
theorem evaluateAll_error {tables : Compiler.CharTables} {context : Json}
    {operands : List ConditionPlan} {error : Exn}
    (h : evaluateAll tables context operands = .error error) : EngineError error := by
  cases operands with
  | nil =>
    rw [evaluateAll] at h
    cases h
  | cons operand rest =>
    rw [evaluateAll] at h
    rcases Except.bind_eq_error.mp h with h | ⟨met, -, h⟩
    · exact evaluateCondition_error h
    · split_ifs at h
      · exact evaluateAll_error h
      · cases h

/-- Any of several conditions. -/
theorem evaluateAny_error {tables : Compiler.CharTables} {context : Json}
    {operands : List ConditionPlan} {error : Exn}
    (h : evaluateAny tables context operands = .error error) : EngineError error := by
  cases operands with
  | nil =>
    rw [evaluateAny] at h
    cases h
  | cons operand rest =>
    rw [evaluateAny] at h
    rcases Except.bind_eq_error.mp h with h | ⟨met, -, h⟩
    · exact evaluateCondition_error h
    · split_ifs at h
      · cases h
      · exact evaluateAny_error h

end

end Foliqant.Core
