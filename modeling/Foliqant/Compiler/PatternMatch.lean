import Foliqant.Common.Backtracking
import Foliqant.Compiler.Patterns

/-!
# What a parsed pattern matches

The semantics of a parse tree as the standard library's engine runs it: `sequenceEnds` lists, for a
subpattern and a start state, the state after every way to match it. A state is a position in the
text with the spans of the groups matched so far. Atomic groups, possessive quantifiers and
lookarounds commit to their first way; a quantifier runs its minimum and then optional iterations,
and after an optional iteration that matched the empty string it only stops.

Case folding and character classes are those of the interpreter's Unicode tables, which `CharTables`
stands for.
-/

namespace Foliqant.Compiler

open Backtracking

/-- The interpreter's character data. -/
structure CharTables where
  /-- Full case folding of one character. -/
  casefold : ℕ → List ℕ
  /-- Simple lower case. -/
  lower : ℕ → ℕ
  /-- The character has case variants. -/
  cased : ℕ → Bool
  /-- Further lower-case characters that match a lower-case character without regard to case. -/
  extraCases : ℕ → List ℕ
  category : CategoryKind → ℕ → Bool

/-- A position in the text with the groups matched so far, the latest first. -/
structure State (text : List ℕ) where
  pos : ℕ
  groups : List (ℕ × ℕ × ℕ)
  bound : pos ≤ text.length

variable (tables : CharTables) (text : List ℕ)

/-! ## Characters -/

/-- The lower case of an ASCII letter. -/
def asciiLower (char : ℕ) : ℕ := if 65 ≤ char ∧ char ≤ 90 then char + 32 else char

/-- An ASCII letter. -/
def asciiCased (char : ℕ) : Bool := (65 ≤ char && char ≤ 90) || (97 ≤ char && char ≤ 122)

/-- The ASCII characters of a category. -/
def asciiCategory : CategoryKind → ℕ → Bool
  | .digit, char => 48 ≤ char && char ≤ 57
  | .space, char => (9 ≤ char && char ≤ 13) || char == 32
  | .word, char => asciiCased char || (48 ≤ char && char ≤ 57) || char == 95

/-- The lower case of a character under the flags. -/
def lower (flags : Flags) (char : ℕ) : ℕ :=
  if flags.unicode then tables.lower char else asciiLower char

/-- A character with cases under the flags. -/
def cased (flags : Flags) (char : ℕ) : Bool :=
  if flags.unicode then tables.cased char else asciiCased char

/-- The lower-case characters that stand for `char` when case is ignored. -/
def caseVariants (flags : Flags) (char : ℕ) : List ℕ :=
  lower tables flags char ::
    if flags.unicode then tables.extraCases (lower tables flags char) else []

/-- A character of a category under the flags. -/
def inCategory (flags : Flags) (kind : CategoryKind) (char : ℕ) : Bool :=
  if flags.unicode then tables.category kind char else asciiCategory kind char

/-- A literal of the pattern matches a character of the text. -/
def literalMatches (flags : Flags) (literal char : ℕ) : Bool :=
  if flags.ignorecase && cased tables flags literal then
    (caseVariants tables flags literal).contains (lower tables flags char)
  else char == literal

/-- An item of a set with cases. -/
def SetItem.hasCase (flags : Flags) : SetItem → Bool
  | .literal char => cased tables flags char
  | .range first last => (List.range' first (last + 1 - first)).any (cased tables flags)
  | .category _ _ => false

/-- A set member matches a character, with `ignorecase` one already in lower case. -/
def SetItem.matches (flags : Flags) (ignorecase : Bool) (char : ℕ) : SetItem → Bool
  | .literal member =>
      if ignorecase then (caseVariants tables flags member).contains char else char == member
  | .range first last =>
      if ignorecase then
        (List.range' first (last + 1 - first)).any
          fun member => (caseVariants tables flags member).contains char
      else first ≤ char && char ≤ last
  | .category kind negated => inCategory tables flags kind char != negated

/-- Case is ignored only in a set with a member that has case. -/
def setMatches (flags : Flags) (negate : Bool) (items : List SetItem) (char : ℕ) : Bool :=
  let ignorecase := flags.ignorecase && items.any (SetItem.hasCase tables flags)
  let subject := if ignorecase then lower tables flags char else char
  items.any (SetItem.matches tables flags ignorecase subject) != negate

/-! ## Positions -/

/-- There is a word's character at a place. -/
def wordAt (flags : Flags) (pos : ℕ) : Bool :=
  match text[pos]? with
  | some char => inCategory tables flags .word char
  | none => false

/-- A word starts or ends at a place. -/
def onBoundary (flags : Flags) (pos : ℕ) : Bool :=
  (decide (0 < pos) && wordAt tables text flags (pos - 1)) != wordAt tables text flags pos

/-- A zero-width position holds; on the empty text no boundary and no non-boundary does. -/
def atMatches (flags : Flags) (pos : ℕ) : AtCode → Bool
  | .beginning => pos == 0 || (flags.multiline && text[pos - 1]? == some 10)
  | .beginningString => pos == 0
  | .boundary => !text.isEmpty && onBoundary tables text flags pos
  | .nonBoundary => !text.isEmpty && !onBoundary tables text flags pos
  | .end => pos == text.length || (text[pos]? == some 10
      && (flags.multiline || pos + 1 == text.length))
  | .endString => pos == text.length

/-! ## Items -/

variable {text}

/-- The span of a group, when it has matched. -/
def State.group (s : State text) (group : ℕ) : Option (ℕ × ℕ) := s.groups.lookup group

/-- An iteration moved the position. -/
def State.advances (s t : State text) : Bool := s.pos != t.pos

/-- Consume one character that satisfies a test. -/
def consume (test : ℕ → Bool) : Matcher (State text) := fun s =>
  if h : s.pos < text.length then
    if test text[s.pos] then [⟨s.pos + 1, s.groups, h⟩] else []
  else []

/-- Two characters of a backreference agree. -/
def sameChar (flags : Flags) (a b : ℕ) : Bool :=
  if flags.ignorecase then lower tables flags a == lower tables flags b else a == b

/-- Match the text of a group again; a group that has not matched fails. -/
def matchGroup (flags : Flags) (group : ℕ) : Matcher (State text) := fun s =>
  match s.group group with
  | none => []
  | some (first, last) =>
      if h : s.pos + (last - first) ≤ text.length then
        if ((text.drop first).take (last - first)).zip (text.drop s.pos)
            |>.all fun (a, b) => sameChar tables flags a b then
          [⟨s.pos + (last - first), s.groups, h⟩]
        else []
      else []

/-- Record the span of a group that has just matched. -/
def State.close (group : Option ℕ) (start : State text) (s : State text) : State text :=
  match group with
  | none => s
  | some group => { s with groups := (group, start.pos, s.pos) :: s.groups }

/-- Where a lookaround starts: here, or the width of its body before. -/
def lookStart (behind : Bool) (width : ℕ) (s : State text) : Option (State text) :=
  if behind then
    if width ≤ s.pos then some ⟨s.pos - width, s.groups, (Nat.sub_le _ _).trans s.bound⟩ else none
  else some s

/-- How many optional iterations follow the mandatory ones; a text with `remaining` characters left
has room for no more than that many that advance, and one more that does not. -/
def RepeatRange.extra (range : RepeatRange) (s : State text) : ℕ :=
  if range.high = MAXREPEAT then text.length - s.pos + 1
  else min (range.high - range.low) (text.length - s.pos + 1)

variable (text)

mutual

/-- Where a node's matches end. -/
def Node.ends (flags : Flags) : Node → Matcher (State text)
  | .literal char => consume (literalMatches tables flags char)
  | .notLiteral char => consume fun c => !literalMatches tables flags char c
  | .any => consume fun c => flags.dotall || c != 10
  | .inSet negate items => consume (setMatches tables flags negate items)
  | .at code => fun s => if atMatches tables text flags s.pos code then [s] else []
  | .failure => fun _ => []
  | .groupref group _ => matchGroup tables flags group
  | .branch first others => fun s =>
      sequenceEnds flags first s ++ alternativeEnds flags others s
  | .subpattern group add del body => fun s =>
      (sequenceEnds (flags.combine add del) body s).map (State.close group s)
  | .maxRepeat range body => fun s =>
      (iterate (sequenceEnds flags body) range.low s).flatMap fun t =>
        optional State.advances (sequenceEnds flags body) (range.extra t) t
  | .minRepeat range body => fun s =>
      (iterate (sequenceEnds flags body) range.low s).flatMap fun t =>
        optionalLazy State.advances (sequenceEnds flags body) (range.extra t) t
  | .possessiveRepeat range body => fun s =>
      (iterate (commit (sequenceEnds flags body)) range.low s).map fun t =>
        greedy State.advances (sequenceEnds flags body) (range.extra t) t
  | .atomicGroup body => commit (sequenceEnds flags body)
  | .assert behind body => fun s =>
      match lookStart behind (getwidth body).1 s with
      | none => []
      | some start =>
          (commit (sequenceEnds flags body) start).map fun t => { s with groups := t.groups }
  | .assertNot behind body => fun s =>
      match lookStart behind (getwidth body).1 s with
      | none => [s]
      | some start => if (sequenceEnds flags body start).isEmpty then [s] else []
  | .grouprefExists group yes none => fun s =>
      if (s.group group).isSome then sequenceEnds flags yes s else [s]
  | .grouprefExists group yes (some no) => fun s =>
      if (s.group group).isSome then sequenceEnds flags yes s else sequenceEnds flags no s

/-- The items one after the other. -/
def sequenceEnds (flags : Flags) : SubPattern → Matcher (State text)
  | [] => fun s => [s]
  | node :: rest => fun s => (node.ends flags s).flatMap (sequenceEnds flags rest)

/-- The remaining alternatives in the order they are tried. -/
def alternativeEnds (flags : Flags) : List SubPattern → Matcher (State text)
  | [] => fun _ => []
  | alternative :: rest => fun s =>
      sequenceEnds flags alternative s ++ alternativeEnds flags rest s

end

/-- Nothing matches where it is. -/
@[simp] theorem sequenceEnds_nil (flags : Flags) (s : State text) :
    sequenceEnds tables text flags [] s = [s] := rfl

/-- A node before others. -/
@[simp] theorem sequenceEnds_cons (flags : Flags) (node : Node) (rest : SubPattern)
    (s : State text) : sequenceEnds tables text flags (node :: rest) s =
      (node.ends tables text flags s).flatMap (sequenceEnds tables text flags rest) := rfl

/-- An alternative before others. -/
@[simp] theorem alternativeEnds_cons (flags : Flags) (alternative : SubPattern)
    (rest : List SubPattern) (s : State text) :
    alternativeEnds tables text flags (alternative :: rest) s =
      sequenceEnds tables text flags alternative s ++ alternativeEnds tables text flags rest s := rfl

/-! ## Parts of a pattern -/

/-- The subpatterns directly inside an item, with the flags in force there. -/
def Node.bodies (flags : Flags) : Node → List (Flags × SubPattern)
  | .branch first others => (first :: others).map (flags, ·)
  | .subpattern _ add del body => [(flags.combine add del, body)]
  | .maxRepeat _ body | .minRepeat _ body | .possessiveRepeat _ body | .atomicGroup body
  | .assert _ body | .assertNot _ body => [(flags, body)]
  | .grouprefExists _ yes none => [(flags, yes)]
  | .grouprefExists _ yes (some no) => [(flags, yes), (flags, no)]
  | .literal _ | .notLiteral _ | .any | .inSet _ _ | .at _ | .failure | .groupref _ _ => []

/-- `part` is the pattern itself or one of its subpatterns at any depth. -/
inductive Part : Flags × SubPattern → Flags × SubPattern → Prop
  | self (pattern) : Part pattern pattern
  | inside {flags : Flags} {items : SubPattern} {node : Node} {body part} (item : node ∈ items)
      (direct : body ∈ node.bodies flags) (deeper : Part body part) : Part (flags, items) part

end Foliqant.Compiler
