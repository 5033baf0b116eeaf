import Mathlib.Data.List.Basic
import Mathlib.Algebra.Order.Ring.Nat

/-!
# Regular expressions of `matches` conditions and the work estimate

The parse tree is the one of the standard library's regular-expression parser: a subpattern is a
list of items, and `Node` has one constructor for each operation code an item can have. Characters
are code points.

`sequence` computes the `Shape` of a subpattern, with the estimated number of choices a backtracking
matcher has in it, and `checkPattern` accepts a pattern whose estimate stays within
`MAX_PATTERN_WORK`.
-/

namespace Foliqant.Compiler

/-- The longest value a `matches` condition is evaluated on. -/
def MAX_MATCH_LENGTH : ℕ := 1024

/-- Estimated backtracking choices allowed for one pattern. -/
def MAX_PATTERN_WORK : ℕ := (MAX_MATCH_LENGTH + 1) ^ 3

/-- The maximum of a quantifier without an upper bound. -/
def MAXREPEAT : ℕ := 4294967295

/-- The largest width the parser reports. -/
def MAXWIDTH : ℕ := 2 ^ 64

/-! ## Parse trees -/

/-- The flags that change what an item matches. -/
structure Flags where
  ignorecase : Bool := false
  multiline : Bool := false
  dotall : Bool := false
  ascii : Bool := false
  unicode : Bool := false
  deriving DecidableEq, Repr

/-- The flags inside a group that adds and removes flags; a type flag replaces the other one. -/
def Flags.combine (flags add del : Flags) : Flags where
  ignorecase := (flags.ignorecase || add.ignorecase) && !del.ignorecase
  multiline := (flags.multiline || add.multiline) && !del.multiline
  dotall := (flags.dotall || add.dotall) && !del.dotall
  ascii := if add.ascii || add.unicode then add.ascii else flags.ascii
  unicode := if add.ascii || add.unicode then add.unicode else flags.unicode

/-- Character classes such as `\d`; `negated` is the upper-case spelling. -/
inductive CategoryKind where
  | digit
  | space
  | word
  deriving DecidableEq, Repr

/-- One member of a character set. -/
inductive SetItem where
  | literal (char : ℕ)
  | range (first last : ℕ)
  | category (kind : CategoryKind) (negated : Bool)
  deriving DecidableEq, Repr

/-- Zero-width positions. -/
inductive AtCode where
  | beginning
  | beginningString
  | boundary
  | nonBoundary
  | «end»
  | endString
  deriving DecidableEq, Repr

/-- The bounds of a quantifier; the parser refuses a minimum above the maximum. -/
structure RepeatRange where
  low : ℕ
  high : ℕ
  ordered : low ≤ high

/-- One item of a subpattern. -/
inductive Node where
  | literal (char : ℕ)
  | notLiteral (char : ℕ)
  | any
  | inSet (negate : Bool) (items : List SetItem)
  | at (code : AtCode)
  | failure
  /-- A backreference; the parser knows the width of the group it refers to. -/
  | groupref (group : ℕ) (width : ℕ × ℕ)
  /-- An alternation; the parser never leaves it without a branch. -/
  | branch (first : List Node) (others : List (List Node))
  | subpattern (group : Option ℕ) (addFlags delFlags : Flags) (body : List Node)
  | maxRepeat (range : RepeatRange) (body : List Node)
  | minRepeat (range : RepeatRange) (body : List Node)
  | possessiveRepeat (range : RepeatRange) (body : List Node)
  | atomicGroup (body : List Node)
  | assert (behind : Bool) (body : List Node)
  | assertNot (behind : Bool) (body : List Node)
  | grouprefExists (group : ℕ) (yes : List Node) (no : Option (List Node))

/-- A subpattern: the items in sequence. -/
abbrev SubPattern := List Node

/-- The width of a quantified body. -/
def RepeatRange.width (range : RepeatRange) (i j : ℕ) : ℕ × ℕ :=
  (i * range.low, if range.high = MAXREPEAT ∧ j ≠ 0 then MAXWIDTH else j * range.high)

mutual

/-- What one item adds to the width of its subpattern. -/
def Node.width : Node → ℕ × ℕ
  | .literal _ | .notLiteral _ | .any | .inSet _ _ => (1, 1)
  | .at _ | .failure | .assert _ _ | .assertNot _ _ => (0, 0)
  | .groupref _ width => width
  | .branch first others =>
      widthOfAlternatives (min MAXWIDTH (widthFrom 0 0 first).1) (max 0 (widthFrom 0 0 first).2)
        others
  | .subpattern _ _ _ body | .atomicGroup body => widthFrom 0 0 body
  | .maxRepeat range body | .minRepeat range body | .possessiveRepeat range body =>
      range.width (widthFrom 0 0 body).1 (widthFrom 0 0 body).2
  | .grouprefExists _ yes none => (0, (widthFrom 0 0 yes).2)
  | .grouprefExists _ yes (some no) =>
      (min (widthFrom 0 0 yes).1 (widthFrom 0 0 no).1,
        max (widthFrom 0 0 yes).2 (widthFrom 0 0 no).2)

/-- The width of a subpattern whose first items are already counted in `lo` and `hi`. -/
def widthFrom (lo hi : ℕ) : SubPattern → ℕ × ℕ
  | [] => (min lo MAXWIDTH, min hi MAXWIDTH)
  | node :: rest => widthFrom (lo + node.width.1) (hi + node.width.2) rest

/-- The smallest and the largest width among the remaining alternatives. -/
def widthOfAlternatives (i j : ℕ) : List SubPattern → ℕ × ℕ
  | [] => (i, j)
  | alternative :: rest =>
      widthOfAlternatives (min i (widthFrom 0 0 alternative).1)
        (max j (widthFrom 0 0 alternative).2) rest

end

/-- The smallest and the largest width of what a subpattern matches. -/
def getwidth (items : SubPattern) : ℕ × ℕ := widthFrom 0 0 items

/-! ## The work estimate -/

/-- The pattern may backtrack for longer than the bounded evaluation allows. -/
structure UnsafePatternError where
  message : String
  deriving DecidableEq, Repr

/-- What the estimate keeps about a subpattern. -/
structure Shape where
  /-- Estimated choices explored while matching the subpattern at one position. -/
  work : ℕ
  /-- More than one way to match: a backtracking variable quantifier or alternation. -/
  ambiguous : Bool
  /-- Contains a backtracking quantifier without an upper bound. -/
  unbounded : Bool
  /-- Contains an alternation outside atomic groups. -/
  alternation : Bool
  deriving DecidableEq, Repr

/-- The shape of an item with exactly one way to match. -/
def Shape.fixed : Shape := ⟨1, false, false, false⟩

/-- Work is counted up to one past the limit. -/
def cap (value : ℕ) : ℕ := min value (MAX_PATTERN_WORK + 1)

/-- The loop of `power`: multiply until the bound is exceeded. -/
def powerFrom (base : ℕ) : ℕ → ℕ → ℕ
  | 0, result => result
  | exponent + 1, result =>
      if cap (result * base) > MAX_PATTERN_WORK then cap (result * base)
      else powerFrom base exponent (cap (result * base))

/-- A capped power. -/
def power (base exponent : ℕ) : ℕ := powerFrom base exponent 1

/-- Sequencing two shapes multiplies their work. -/
def Shape.seq (acc shape : Shape) : Shape where
  work := cap (acc.work * shape.work)
  ambiguous := acc.ambiguous || shape.ambiguous
  unbounded := acc.unbounded || shape.unbounded
  alternation := acc.alternation || shape.alternation

/-- The case-folded first literal of a branch of fixed width. -/
def fixedFirst (casefold : ℕ → List ℕ) (alternative : SubPattern) : Option (List ℕ) :=
  if (getwidth alternative).1 = (getwidth alternative).2 then
    match alternative with
    | .literal char :: _ => some (casefold char)
    | _ => none
  else none

/-- At most one branch can match at a position: equal fixed widths, distinct first literals. -/
def deterministic (casefold : ℕ → List ℕ) (alternatives : List SubPattern) : Bool :=
  match alternatives.mapM (fixedFirst casefold) with
  | none => false
  | some firsts =>
      decide ((alternatives.map getwidth).dedup.length = 1) && decide firsts.Nodup

/-- The shape of an alternation from the shapes of its branches. -/
def Shape.branches (deterministic : Bool) (shapes : List Shape) : Shape :=
  let inner := shapes.any (·.ambiguous)
  let overlapping := decide (shapes.length > 1) && !deterministic
  { work := cap (shapes.map (·.work)).sum
    ambiguous := overlapping || inner
    unbounded := shapes.any (·.unbounded)
    alternation := overlapping || shapes.any (·.alternation) }

/-- The iteration counts a quantifier chooses from: a bounded value admits at most
`MAX_MATCH_LENGTH` nonempty iterations. -/
def repeatCounts (low high : ℕ) : ℕ := min high MAX_MATCH_LENGTH - low + 1

/-- The choices of a quantifier. Each of a bounded number of iterations may match in several ways, so
they multiply; a bounded quantifier over an unbounded body costs bound × inner work. -/
def Shape.repeatWork (low high : ℕ) (body : Shape) : ℕ :=
  if body.ambiguous && !body.unbounded then
    power body.work (min high MAX_MATCH_LENGTH) * repeatCounts low high
  else repeatCounts low high * body.work

/-- The shape of a backtracking quantifier. -/
def Shape.repeat (low high : ℕ) (body : Shape) : Except UnsafePatternError Shape :=
  let unbounded := decide (high = MAXREPEAT)
  if unbounded && body.unbounded then
    .error ⟨"nested unbounded quantifier"⟩
  else if unbounded && (body.alternation || body.ambiguous) then
    .error ⟨"unbounded ambiguous repetition"⟩
  else
    .ok { work := cap (body.repeatWork low high)
          ambiguous := body.ambiguous || decide (repeatCounts low high > 1)
          unbounded := unbounded || body.unbounded
          alternation := body.alternation }

/-- The shape of a part that is left after its first match: only the work inside remains. -/
def Shape.committed (body : Shape) : Shape := ⟨body.work, false, false, false⟩

section Estimate

variable (casefold : ℕ → List ℕ)

mutual

/-- The shape of one node of a parsed pattern, or why its work is unbounded. -/
def Node.shape : Node → Except UnsafePatternError Shape
  | .maxRepeat range body | .minRepeat range body => do
      (← sequenceFrom .fixed body).repeat range.low range.high
  | .possessiveRepeat _ body => do return (← sequenceFrom .fixed body).committed
  | .subpattern _ _ _ body => sequenceFrom .fixed body
  | .branch first others => do
      return .branches (deterministic casefold (first :: others))
        ((← sequenceFrom .fixed first) :: (← shapes others))
  | .atomicGroup body | .assert _ body | .assertNot _ body => do
      return (← sequenceFrom .fixed body).committed
  | .grouprefExists _ yes none => do
      return .branches (deterministic casefold [yes]) [← sequenceFrom .fixed yes]
  | .grouprefExists _ yes (some no) => do
      return .branches (deterministic casefold [yes, no])
        [← sequenceFrom .fixed yes, ← sequenceFrom .fixed no]
  | .literal _ | .notLiteral _ | .any | .inSet _ _ | .at _ | .failure | .groupref _ _ =>
      return .fixed

/-- The loop of `sequence`, with the shape of the items so far. -/
def sequenceFrom (acc : Shape) : SubPattern → Except UnsafePatternError Shape
  | [] => return acc
  | node :: rest => do sequenceFrom (acc.seq (← node.shape)) rest

/-- The shapes of the remaining branches of an alternation. -/
def shapes : List SubPattern → Except UnsafePatternError (List Shape)
  | [] => return []
  | alternative :: rest => return (← sequenceFrom .fixed alternative) :: (← shapes rest)

end

/-- The shape of a subpattern. -/
def sequence (items : SubPattern) : Except UnsafePatternError Shape :=
  sequenceFrom casefold .fixed items

/-- Accept a parsed pattern only if matching has bounded backtracking; the parser has no tree for
text it refuses. -/
def checkPattern (parsed : Option SubPattern) : Except UnsafePatternError Unit :=
  match parsed with
  | none => .error ⟨"invalid pattern"⟩
  | some items => do
      if (← sequence casefold items).work > MAX_PATTERN_WORK then
        .error ⟨"backtracking work exceeds the bound"⟩

end Estimate

end Foliqant.Compiler
