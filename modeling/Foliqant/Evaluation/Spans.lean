import Foliqant.Common.TextSearch
import Foliqant.Core.Bindings

/-!
# Source spans

A gold span is a pair of ranges over one string of the case input. A candidate matches when it occurs
inside the allowed range and covers the required one.
-/

namespace Foliqant.Evaluation

open Foliqant.Core JsonText

/-- The fields of a source span specification. -/
def SPAN_FIELDS : List String := ["input_path", "required", "allowed"]

/-- Validated code-point ranges over one string of the case input. -/
structure SourceSpan where
  inputPath : String
  required : ℕ × ℕ
  allowed : ℕ × ℕ
  starts : allowed.1 ≤ required.1
  forward : required.1 < required.2
  ends : required.2 ≤ allowed.2

/-- Two offsets in order; a boolean is no offset. -/
def range (value : Json) (name : String) : Except String (ℕ × ℕ) :=
  match value with
  | .arr [.int start, .int stop] =>
      if start < 0 ∨ stop ≤ start then
        .error ("source_span " ++ name ++ " must be a nonempty forward range")
      else .ok (start.toNat, stop.toNat)
  | _ => .error ("source_span " ++ name ++ " must be two integer code-point offsets")

/-- The pointer of a gold span; the parts are counted with the empty one before the first slash. -/
def spanPath : Json → Except String String
  | .str path =>
      if (path ≠ "" ∧ path.toList.head? ≠ some '/') ∨ escapesValid path.toList = false ∨
          (path.toList.splitOn '/').length > MAX_JSON_DEPTH + 1 then
        .error "source_span input_path must be an RFC 6901 JSON pointer"
      else .ok path
  | _ => .error "source_span input_path must be an RFC 6901 JSON pointer"

/-- The ranges of a gold span must be nested. -/
def nestedSpan (path : String) (required allowed : ℕ × ℕ) : Except String SourceSpan :=
  if nested : allowed.1 ≤ required.1 ∧ required.1 < required.2 ∧ required.2 ≤ allowed.2 then
    .ok ⟨path, required, allowed, nested.1, nested.2.1, nested.2.2⟩
  else .error "source_span required range must be nested in allowed range"

/-- Validate the closed shape of a gold span without resolving its input. -/
def sourceSpan (expected : Json) : Except String SourceSpan :=
  match expected with
  | .obj members =>
      match (Dict.keys members).all (· ∈ SPAN_FIELDS), members.lookup "input_path",
          members.lookup "required", members.lookup "allowed" with
      | true, some path, some required, some allowed => do
          let path ← spanPath path
          let required ← range required "required"
          let allowed ← range allowed "allowed"
          nestedSpan path required allowed
      | _, _, _, _ => .error "source_span gold requires only input_path, required, and allowed"
  | _ => .error "source_span gold requires only input_path, required, and allowed"

/-- The source must be a string that holds the ranges. -/
def spanText (specification : SourceSpan) (found : Except Exn Json) :
    Except String (SourceSpan × List Char) :=
  match found with
  | .ok (.str source) =>
      if specification.allowed.2 > source.toList.length then
        .error "source_span ranges exceed the source string"
      else .ok (specification, source.toList)
  | .ok _ => .error "source_span input_path must resolve to a string"
  | .error _ => .error "source_span input_path must resolve in the case input"

/-- Resolve and validate the source against the case input. -/
def sourceSpanSource (expected caseInput : Json) : Except String (SourceSpan × List Char) := do
  let specification ← sourceSpan expected
  spanText specification (resolveBinding caseInput (.pointer specification.inputPath none))

/-- The candidate that starts at a position covers the required range. -/
def SourceSpan.covered (specification : SourceSpan) (candidate : List Char) (position : ℕ) : Bool :=
  position ≤ specification.required.1 ∧ specification.required.2 ≤ position + candidate.length

/-- Whether a value is a candidate with an occurrence within the ranges. -/
def SourceSpan.matches (specification : SourceSpan) (source : List Char) : Json → Bool
  | .str candidate =>
      candidate ≠ "" && TextSearch.search source candidate.toList
        (specification.covered candidate.toList) specification.allowed.2 specification.allowed.1
  | _ => false

/-- Match one exact occurrence of a candidate within the ranges. -/
def matchesSourceSpan (actual expected caseInput : Json) : Except String Bool := do
  let (specification, source) ← sourceSpanSource expected caseInput
  return specification.matches source actual

/-! ## What matching means -/

/-- The ranges of a validated span lie within its source. -/
theorem sourceSpanSource_within {expected caseInput : Json} {specification : SourceSpan}
    {source : List Char}
    (validated : sourceSpanSource expected caseInput = .ok (specification, source)) :
    specification.allowed.2 ≤ source.length := by
  obtain ⟨specification', -, resolved⟩ := Except.bind_eq_ok.mp validated
  unfold spanText at resolved
  split at resolved
  · split at resolved
    · cases resolved
    · rename_i inside
      cases resolved
      omega
  · cases resolved
  · cases resolved

/-- A position where the candidate occurs within the allowed range and covers the required one. -/
structure Occurrence (specification : SourceSpan) (source candidate : List Char) (position : ℕ) :
    Prop where
  occurs : TextSearch.Occurs source candidate position
  starts : specification.allowed.1 ≤ position
  ends : position + candidate.length ≤ specification.allowed.2
  before : position ≤ specification.required.1
  behind : specification.required.2 ≤ position + candidate.length

/-- A nonempty candidate matches exactly when it occurs at an allowed position. -/
theorem SourceSpan.matches_iff {specification : SourceSpan} {source : List Char} {candidate : String}
    (nonempty : candidate ≠ "") :
    specification.matches source (.str candidate) = true ↔
      ∃ position, Occurrence specification source candidate.toList position := by
  rw [SourceSpan.matches, decide_eq_true nonempty, Bool.true_and, TextSearch.search_iff]
  constructor
  · rintro ⟨position, starts, occurs, ends, covered⟩
    rw [SourceSpan.covered, decide_eq_true_iff] at covered
    exact ⟨position, occurs, starts, ends, covered.1, covered.2⟩
  · rintro ⟨position, occurs, starts, ends, before, behind⟩
    refine ⟨position, starts, occurs, ends, ?_⟩
    rw [SourceSpan.covered, decide_eq_true_iff]
    exact ⟨before, behind⟩

/-- Over a validated span matching is total, and it succeeds exactly when an occurrence lies within
the ranges. -/
theorem matchesSourceSpan_iff {expected caseInput : Json} {specification : SourceSpan}
    {source : List Char} {candidate : String}
    (validated : sourceSpanSource expected caseInput = .ok (specification, source))
    (nonempty : candidate ≠ "") :
    specification.allowed.2 ≤ source.length ∧
      ∃ found, matchesSourceSpan (.str candidate) expected caseInput = .ok found ∧
        (found = true ↔ ∃ position, Occurrence specification source candidate.toList position) := by
  refine ⟨sourceSpanSource_within validated, _, ?_, SourceSpan.matches_iff nonempty⟩
  unfold matchesSourceSpan
  rw [validated]
  rfl

/-- The middle of a periodic text, with a gold span around it. -/
def periodicInput : Json := .obj [("text", .str "ababab")]

/-- A specification over a text whose occurrences overlap. -/
def periodicGold : Json := .obj [("input_path", .str "/text"), ("required", .arr [.int 3, .int 4]),
  ("allowed", .arr [.int 1, .int 6])]

/-- The equivalence at that text, where occurrences overlap. -/
theorem periodic_matches : ∃ specification source,
    sourceSpanSource periodicGold periodicInput = .ok (specification, source) ∧
      ∃ found, matchesSourceSpan (.str "aba") periodicGold periodicInput = .ok found ∧
        (found = true ↔ ∃ position, Occurrence specification source "aba".toList position) :=
  have validated : sourceSpanSource periodicGold periodicInput = .ok
      (⟨"/text", (3, 4), (1, 6), by decide, by decide, by decide⟩, "ababab".toList) := by rfl
  ⟨_, _, validated, (matchesSourceSpan_iff validated (by decide)).2⟩

end Foliqant.Evaluation
