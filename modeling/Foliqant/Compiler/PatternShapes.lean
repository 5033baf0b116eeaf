import Foliqant.Common.Fallible
import Foliqant.Compiler.PatternMatch

/-!
# Shapes and the matchers they describe

`Sound` relates a shape to a matcher: the work bounds the ways unless it is capped, and a shape that
is not ambiguous has at most one way. There is one lemma for each way the estimate combines shapes.
`Node.Counted` says what the estimate takes for granted about an item: the quantifier and the
alternation lemmas need it.
-/

namespace Foliqant.Compiler

open Backtracking

variable {tables : CharTables} {text : List ℕ}

/-! ## Items the estimate counts correctly -/

/-- Every way to match moves forward. -/
def Consumes (f : Matcher (State text)) : Prop := ∀ s, ∀ t ∈ f s, s.pos < t.pos

/-- No character starts two branches that both begin with a literal. -/
def Exclusive (tables : CharTables) (flags : Flags) : SubPattern → SubPattern → Prop
  | .literal a :: _, .literal b :: _ =>
      ∀ char, ¬ (literalMatches tables flags a char ∧ literalMatches tables flags b char)
  | _, _ => True

/-- What the estimate takes for granted about a quantifier: iterations with several ways multiply
only when the body is bounded and the maximum is not zero, and the length of the text limits the
iterations only when each of them consumes something. -/
structure RepeatRange.Counted (tables : CharTables) (flags : Flags) (range : RepeatRange)
    (body : SubPattern) (shape : Shape) : Prop where
  nonzero : shape.ambiguous = true → shape.unbounded = false → range.high ≠ 0
  single : shape.ambiguous = true → shape.unbounded = true → range.high ≤ 1
  consumes : MAX_MATCH_LENGTH < range.high → ∀ text : List ℕ, text.length ≤ MAX_MATCH_LENGTH →
    Consumes (sequenceEnds tables text flags body)

/-- What the estimate takes for granted about one item. -/
def Node.Counted (tables : CharTables) (flags : Flags) : Node → Prop
  | .maxRepeat range body | .minRepeat range body =>
      ∀ shape, sequence tables.casefold body = .ok shape → range.Counted tables flags body shape
  | .branch first others =>
      flags.ignorecase = true → deterministic tables.casefold (first :: others) = true →
        (first :: others).Pairwise (Exclusive tables flags)
  | _ => True

/-- Every item of a pattern and of its subpatterns is counted correctly. -/
def AllCounted (tables : CharTables) (pattern : Flags × SubPattern) : Prop :=
  ∀ part, Part pattern part → ∀ node ∈ part.2, node.Counted tables part.1

/-- The bodies of a counted pattern are counted. -/
theorem AllCounted.body {flags : Flags} {items : SubPattern} {node : Node}
    {body : Flags × SubPattern} (h : AllCounted tables (flags, items)) (item : node ∈ items)
    (direct : body ∈ node.bodies flags) : AllCounted tables body :=
  fun part deeper => h part (.inside item direct deeper)

/-- The items of a pattern and the subpatterns directly inside them are counted correctly. -/
theorem allCounted_iff {flags : Flags} {items : SubPattern} :
    AllCounted tables (flags, items) ↔ ∀ node ∈ items, node.Counted tables flags ∧
      ∀ body ∈ node.bodies flags, AllCounted tables body := by
  refine ⟨fun h node item => ⟨h _ (.self _) node item, fun _ => h.body item⟩, fun h part hpart => ?_⟩
  cases hpart with
  | self => exact fun node item => (h node item).1
  | inside item direct deeper => exact (h _ item).2 _ direct part deeper

/-- The rest of a counted pattern is counted. -/
theorem AllCounted.rest {flags : Flags} {node : Node} {rest : SubPattern}
    (h : AllCounted tables (flags, node :: rest)) : AllCounted tables (flags, rest) :=
  allCounted_iff.mpr fun item hitem => allCounted_iff.mp h item (List.mem_cons_of_mem _ hitem)

/-! ## Arithmetic of the capped work -/

/-- A value under the limit is not capped. -/
theorem cap_eq_of_le {value : ℕ} (h : cap value ≤ MAX_PATTERN_WORK) : cap value = value := by
  unfold cap at *
  omega

/-- A capped value under the limit. -/
theorem le_of_cap_le {value : ℕ} (h : cap value ≤ MAX_PATTERN_WORK) :
    value ≤ MAX_PATTERN_WORK := by
  rwa [cap_eq_of_le h] at h

/-- A bound that is within the cap. -/
theorem le_cap {n value : ℕ} (hn : n ≤ MAX_PATTERN_WORK + 1) (h : n ≤ value) : n ≤ cap value := by
  unfold cap
  omega

/-- The limit leaves room. -/
theorem two_le_MAX_PATTERN_WORK : 2 ≤ MAX_PATTERN_WORK + 1 := by
  decide

/-- A power under the limit is not capped. -/
theorem powerFrom_eq {base exponent result : ℕ}
    (h : powerFrom base exponent result ≤ MAX_PATTERN_WORK) :
    powerFrom base exponent result = result * base ^ exponent := by
  induction exponent generalizing result with
  | zero => simp [powerFrom]
  | succ exponent ih =>
    rw [powerFrom] at h ⊢
    split at h
    · omega
    next hle =>
      rw [if_neg hle, ih h, cap_eq_of_le (not_lt.mp hle)]
      ring

/-- Below the bound `power` is the power. -/
theorem power_eq {base exponent : ℕ} (h : power base exponent ≤ MAX_PATTERN_WORK) :
    power base exponent = base ^ exponent := by
  rw [power, powerFrom_eq h, one_mul]

/-- A capped power is no less than its start. -/
theorem le_powerFrom {n base exponent result : ℕ} (hn : n ≤ MAX_PATTERN_WORK + 1) (hbase : 1 ≤ base)
    (h : n ≤ result) : n ≤ powerFrom base exponent result := by
  induction exponent generalizing result with
  | zero => exact h
  | succ exponent ih =>
    have hcap : n ≤ cap (result * base) := le_cap hn (h.trans (Nat.le_mul_of_pos_right _ hbase))
    rw [powerFrom]
    split
    · exact hcap
    · exact ih hcap

/-- A capped power is no less than its base. -/
theorem le_power {n base exponent : ℕ} (hn : n ≤ MAX_PATTERN_WORK + 1) (hbase : n ≤ base)
    (h1 : 1 ≤ base) (hexp : exponent ≠ 0) : n ≤ power base exponent := by
  obtain ⟨exponent, rfl⟩ := Nat.exists_eq_succ_of_ne_zero hexp
  have hcap : n ≤ cap (1 * base) := le_cap hn (by simpa using hbase)
  rw [power, powerFrom]
  split
  · exact hcap
  · exact le_powerFrom hn h1 hcap

/-- `MAX_MATCH_LENGTH` ambiguous iterations exceed the bound. -/
theorem two_pow_exceeds : MAX_PATTERN_WORK < 2 ^ MAX_MATCH_LENGTH := by
  calc MAX_PATTERN_WORK < 2 ^ 31 := by decide
    _ ≤ 2 ^ MAX_MATCH_LENGTH := Nat.pow_le_pow_right (by decide) (by decide)

/-! ## Shapes and matchers -/

/-- A shape describes a matcher: its work, unless capped, bounds the ways to match, and a shape that
is not ambiguous has at most one way. -/
structure Sound (shape : Shape) (f : Matcher (State text)) : Prop where
  positive : 1 ≤ shape.work
  choices : shape.ambiguous = true → 2 ≤ shape.work
  bounded : shape.work ≤ MAX_PATTERN_WORK → ∀ s, (f s).length ≤ shape.work
  unique : shape.ambiguous = false → Unique f

/-- What matches in one way at most. -/
theorem Sound.fixed {f : Matcher (State text)} (hf : Unique f) : Sound .fixed f where
  positive := le_rfl
  choices := by simp [Shape.fixed]
  bounded _ := hf
  unique _ := hf

/-- What commits to its first way. -/
theorem Sound.committed {shape : Shape} {f g : Matcher (State text)} (h : Sound shape f)
    (hg : Unique g) : Sound shape.committed g where
  positive := h.positive
  choices := by simp [Shape.committed]
  bounded _ s := (hg s).trans h.positive
  unique _ := hg

/-- One part after the other. -/
theorem Sound.seq {a b : Shape} {f g : Matcher (State text)} (hf : Sound a f) (hg : Sound b g) :
    Sound (a.seq b) fun s => (f s).flatMap g where
  positive := le_cap (by decide) (Nat.mul_pos hf.positive hg.positive)
  choices h := by
    refine le_cap two_le_MAX_PATTERN_WORK ?_
    have ha := hf.positive
    have hb := hg.positive
    rcases Bool.or_eq_true _ _ |>.mp h with h | h
    · have := hf.choices h
      nlinarith
    · have := hg.choices h
      nlinarith
  bounded h s := by
    have hprod : a.work * b.work ≤ MAX_PATTERN_WORK := le_of_cap_le h
    have ha : a.work ≤ MAX_PATTERN_WORK := (Nat.le_mul_of_pos_right _ hg.positive).trans hprod
    have hb : b.work ≤ MAX_PATTERN_WORK := (Nat.le_mul_of_pos_left _ hf.positive).trans hprod
    have hwork : (a.seq b).work = a.work * b.work := cap_eq_of_le h
    rw [hwork]
    exact length_flatMap_le (hf.bounded ha s) fun t _ => hg.bounded hb t
  unique h s := by
    obtain ⟨ha, hb⟩ := Bool.or_eq_false_iff.mp h
    exact length_flatMap_le_of_unique (hf.unique ha s) fun t _ => hg.unique hb t

/-- Changing each end state changes no number of ways. -/
theorem Sound.congr {shape : Shape} {f g : Matcher (State text)} (h : Sound shape f)
    (hlen : ∀ s, (g s).length = (f s).length) : Sound shape g where
  positive := h.positive
  choices := h.choices
  bounded hw s := by
    rw [hlen]
    exact h.bounded hw s
  unique ha s := by
    rw [hlen]
    exact h.unique ha s

/-! ## Quantifiers -/

/-- What is left of the text after a state. -/
def State.remaining (s : State text) : ℕ := text.length - s.pos

/-- What consumes leaves less text. -/
theorem Consumes.remaining_lt {f : Matcher (State text)} (hf : Consumes f) (s : State text) :
    ∀ t ∈ f s, t.remaining < s.remaining := by
  intro t ht
  have hlt := hf s t ht
  have := t.bound
  unfold State.remaining
  omega

/-- How many more repetitions there may be. -/
theorem RepeatRange.extra_le {range : RepeatRange} (h : range.high ≤ MAX_MATCH_LENGTH)
    (s : State text) : range.extra s ≤ range.high - range.low := by
  have hne : range.high ≠ MAXREPEAT := fun heq => by
    rw [heq] at h
    exact absurd h (by decide)
  rw [RepeatRange.extra, if_neg hne]
  exact min_le_left _ _

/-- All ways through a backtracking quantifier, longest first. -/
def RepeatRange.ends (range : RepeatRange) (f : Matcher (State text)) : Matcher (State text) :=
  fun s => (iterate f range.low s).flatMap fun t => optional State.advances f (range.extra t) t

/-- With few iterations, each of at most `b` ways, the choices multiply. -/
theorem RepeatRange.length_ends_le {range : RepeatRange} {f : Matcher (State text)} {b : ℕ}
    (h : range.high ≤ MAX_MATCH_LENGTH) (hb : 1 ≤ b) (hf : ∀ s, (f s).length ≤ b) (s : State text) :
    (range.ends f s).length ≤ b ^ range.high * (range.high - range.low + 1) := by
  have hopt : ∀ t ∈ iterate f range.low s,
      (optional State.advances f (range.extra t) t).length
        ≤ (range.high - range.low + 1) * b ^ (range.high - range.low) := by
    intro t _
    have hextra := range.extra_le h t
    refine (length_optional_le hb hf _ t).trans (Nat.mul_le_mul (by omega) ?_)
    exact Nat.pow_le_pow_right hb hextra
  refine (length_flatMap_le (length_iterate_le hf range.low s) hopt).trans (le_of_eq ?_)
  calc _ = b ^ (range.low + (range.high - range.low)) * (range.high - range.low + 1) := by ring
    _ = _ := by rw [Nat.add_sub_cancel' range.ordered]

/-- A quantifier over a body with at most one way only chooses the number of iterations. -/
theorem RepeatRange.length_ends_le_of_unique {range : RepeatRange} {f : Matcher (State text)}
    (hlen : text.length ≤ MAX_MATCH_LENGTH) (hf : Unique f)
    (hconsumes : MAX_MATCH_LENGTH < range.high → Consumes f) (s : State text) :
    (range.ends f s).length ≤ min range.high MAX_MATCH_LENGTH - range.low + 1 := by
  by_cases h : range.high ≤ MAX_MATCH_LENGTH
  · have := length_ends_le h le_rfl hf s
    rw [min_eq_left h]
    simpa using this
  · have hlt := (hconsumes (not_le.mp h)).remaining_lt
    have hmand : ∀ t ∈ iterate f range.low s,
        (optional State.advances f (range.extra t) t).length
          ≤ MAX_MATCH_LENGTH - range.low + 1 := by
      intro t ht
      have hopt := length_optional_le_measure State.advances hf hlt
        (range.extra t) t
      have hdone := measure_of_mem_iterate hlt range.low s t ht
      have hs : s.remaining ≤ text.length := Nat.sub_le _ _
      omega
    rw [min_eq_right (not_le.mp h).le]
    exact length_flatMap_le_of_unique (hf.iterate _ s) hmand

/-- The shape the estimate gives to a quantifier that it accepts. -/
theorem Shape.repeat_eq_ok {low high : ℕ} {body shape : Shape}
    (h : body.repeat low high = .ok shape) :
    shape.work = cap (body.repeatWork low high) ∧
      shape.ambiguous = (body.ambiguous || decide (repeatCounts low high > 1)) := by
  unfold Shape.repeat at h
  simp only at h
  split at h
  · cases h
  · split at h
    · cases h
    · cases h
      exact ⟨rfl, rfl⟩

/-- There is a number of repetitions. -/
theorem one_le_repeatCounts (low high : ℕ) : 1 ≤ repeatCounts low high := by
  unfold repeatCounts
  omega

/-- The work of a quantifier is at least the choices of its body and at least its counts. -/
theorem Shape.le_repeatWork {n high : ℕ} (low : ℕ) {body : Shape} (hpos : 1 ≤ body.work)
    (hn : n ≤ MAX_PATTERN_WORK + 1) (hbody : n ≤ body.work)
    (hzero : body.ambiguous = true → body.unbounded = false → high ≠ 0) :
    n ≤ body.repeatWork low high := by
  have hcounts := one_le_repeatCounts low high
  unfold Shape.repeatWork
  split
  next hcase =>
    simp only [Bool.and_eq_true, Bool.not_eq_true'] at hcase
    have hiter : min high MAX_MATCH_LENGTH ≠ 0 := by
      have := hzero hcase.1 hcase.2
      have : MAX_MATCH_LENGTH ≠ 0 := by decide
      omega
    exact (le_power hn hbody hpos hiter).trans (Nat.le_mul_of_pos_right _ hcounts)
  · exact hbody.trans (Nat.le_mul_of_pos_left _ hcounts)

/-- Where the estimate stays within the bound, it is at least the ways through the quantifier. -/
theorem RepeatRange.length_ends_le_repeatWork {range : RepeatRange} {body : Shape}
    {items : SubPattern} {flags : Flags} {f : Matcher (State text)}
    (hcount : range.Counted tables flags items body) (hf : Sound body f)
    (hunique : body.ambiguous = false → ∀ s, (range.ends f s).length
      ≤ repeatCounts range.low range.high)
    (hle : body.repeatWork range.low range.high ≤ MAX_PATTERN_WORK) (s : State text) :
    (range.ends f s).length ≤ body.repeatWork range.low range.high := by
  have hcounts := one_le_repeatCounts range.low range.high
  have hpos := hf.positive
  have hbody : body.work ≤ MAX_PATTERN_WORK := by
    by_contra hlt
    have := Shape.le_repeatWork range.low hpos le_rfl (not_le.mp hlt) hcount.nonzero
    omega
  unfold Shape.repeatWork at hle ⊢
  cases hamb : body.ambiguous with
  | false =>
    rw [Bool.false_and, if_neg Bool.false_ne_true]
    exact (hunique hamb s).trans (Nat.le_mul_of_pos_right _ hpos)
  | true =>
    cases hunb : body.unbounded with
    | false =>
      simp only [hamb, hunb, Bool.not_false, Bool.and_self, if_true] at hle ⊢
      have hpower : power body.work (min range.high MAX_MATCH_LENGTH) ≤ MAX_PATTERN_WORK :=
        (Nat.le_mul_of_pos_right _ hcounts).trans hle
      rw [power_eq hpower]
      -- a larger bound would take at least two ways to that power, past the limit
      have hhigh : range.high ≤ MAX_MATCH_LENGTH := by
        by_contra hlt
        rw [power_eq hpower, min_eq_right (not_le.mp hlt).le] at hpower
        have := Nat.pow_le_pow_left (hf.choices hamb) MAX_MATCH_LENGTH
        have := two_pow_exceeds
        omega
      unfold repeatCounts
      rw [min_eq_left hhigh]
      exact range.length_ends_le hhigh hpos (hf.bounded hbody) s
    | true =>
      simp only [hamb, hunb, Bool.not_true, Bool.and_false, Bool.false_eq_true, if_false] at hle ⊢
      -- the excluded branch: an unbounded body is counted once only
      have hone : range.high ≤ 1 := hcount.single hamb hunb
      have hhigh : range.high ≤ MAX_MATCH_LENGTH := hone.trans (by decide)
      unfold repeatCounts
      rw [min_eq_left hhigh, mul_comm]
      refine (range.length_ends_le hhigh hpos (hf.bounded hbody) s).trans
        (Nat.mul_le_mul_right _ ?_)
      exact (Nat.pow_le_pow_right hpos hone).trans (pow_one _).le

/-- A repetition. -/
theorem Sound.repeat {range : RepeatRange} {body shape : Shape} {items : SubPattern} {flags : Flags}
    {f : Matcher (State text)} (hlen : text.length ≤ MAX_MATCH_LENGTH) (hf : Sound body f)
    (hitems : sequenceEnds tables text flags items = f)
    (hcount : range.Counted tables flags items body)
    (hok : body.repeat range.low range.high = .ok shape) : Sound shape (range.ends f) := by
  obtain ⟨hwork, hambiguous⟩ := Shape.repeat_eq_ok hok
  have hconsumes : MAX_MATCH_LENGTH < range.high → Consumes f := fun h =>
    hitems ▸ hcount.consumes h text hlen
  have hunique : body.ambiguous = false → ∀ s, (range.ends f s).length
      ≤ repeatCounts range.low range.high := fun h =>
    range.length_ends_le_of_unique hlen (hf.unique h) hconsumes
  have hcounts := one_le_repeatCounts range.low range.high
  have hpos := hf.positive
  refine ⟨?_, ?_, ?_, ?_⟩
  · rw [hwork]
    exact le_cap (by decide) (Shape.le_repeatWork _ hpos (by decide) hpos hcount.nonzero)
  · intro hamb
    rw [hwork]
    refine le_cap two_le_MAX_PATTERN_WORK ?_
    cases hb : body.ambiguous with
    | false =>
      have hmany : 1 < repeatCounts range.low range.high := by simpa [hambiguous, hb] using hamb
      rw [Shape.repeatWork, hb, Bool.false_and, if_neg Bool.false_ne_true]
      nlinarith
    | true => exact Shape.le_repeatWork _ hpos two_le_MAX_PATTERN_WORK (hf.choices hb) hcount.nonzero
  · intro hle s
    rw [hwork] at hle ⊢
    rw [cap_eq_of_le hle]
    exact range.length_ends_le_repeatWork hcount hf hunique (le_of_cap_le hle) s
  · intro hamb s
    rw [hambiguous, Bool.or_eq_false_iff, decide_eq_false_iff_not] at hamb
    have := hunique hamb.1 s
    omega

/-! ## Alternations -/

/-- The first characters of an alternative. -/
theorem fixedFirst_eq_some {casefold : ℕ → List ℕ} {alternative : SubPattern} {first : List ℕ}
    (h : fixedFirst casefold alternative = some first) :
    ∃ char rest, alternative = .literal char :: rest ∧ first = casefold char := by
  unfold fixedFirst at h
  split at h
  · split at h
    · exact ⟨_, _, rfl, (Option.some.inj h).symm⟩
    · cases h
  · cases h

/-- Branches taken as deterministic begin with literals that differ without regard to case. -/
theorem firsts_distinct {casefold : ℕ → List ℕ} {alternatives : List SubPattern}
    {firsts : List (List ℕ)} (h : alternatives.mapM (fixedFirst casefold) = some firsts)
    (hnodup : firsts.Nodup) :
    alternatives.Pairwise fun a b => ∃ c cs d ds, a = .literal c :: cs ∧ b = .literal d :: ds ∧
      casefold c ≠ casefold d := by
  have hfirsts := List.forall₂_of_mapM h
  clear h
  induction hfirsts with
  | nil => exact List.Pairwise.nil
  | cons hfirst hothers ih =>
    obtain ⟨c, cs, rfl, rfl⟩ := fixedFirst_eq_some hfirst
    refine List.Pairwise.cons (fun b hb => ?_) (ih hnodup.of_cons)
    obtain ⟨other, hother, heq⟩ := hothers.exists_of_mem_left hb
    obtain ⟨d, ds, rfl, rfl⟩ := fixedFirst_eq_some heq
    exact ⟨c, cs, d, ds, rfl, rfl, fun h => (List.nodup_cons.mp hnodup).1 (h ▸ hother)⟩

/-- A branch that begins with a literal needs that literal. -/
theorem sequenceEnds_literal {flags : Flags} {char : ℕ} {rest : SubPattern} {s : State text}
    (h : sequenceEnds tables text flags (.literal char :: rest) s ≠ []) :
    ∃ hlt : s.pos < text.length, literalMatches tables flags char text[s.pos] = true := by
  by_contra hno
  refine h ?_
  have hend : consume (literalMatches tables flags char) s = [] := by
    unfold consume
    split
    next hlt =>
      rw [if_neg]
      exact fun hmatch => hno ⟨hlt, hmatch⟩
    · rfl
  rw [sequenceEnds_cons, Node.ends, hend, List.flatMap_nil]

/-- Deterministic branches never both match at a position. -/
theorem deterministic_disjoint {flags : Flags} {alternatives : List SubPattern}
    (hdet : deterministic tables.casefold alternatives = true)
    (hcount : flags.ignorecase = true → alternatives.Pairwise (Exclusive tables flags)) :
    alternatives.Pairwise fun a b => ∀ s : State text,
      sequenceEnds tables text flags a s = [] ∨ sequenceEnds tables text flags b s = [] := by
  have hexclusive : alternatives.Pairwise fun a b => ∃ c cs d ds,
      a = .literal c :: cs ∧ b = .literal d :: ds ∧
        ∀ char, ¬ (literalMatches tables flags c char ∧ literalMatches tables flags d char) := by
    have hdistinct : alternatives.Pairwise fun a b => ∃ c cs d ds,
        a = .literal c :: cs ∧ b = .literal d :: ds ∧ tables.casefold c ≠ tables.casefold d := by
      unfold deterministic at hdet
      split at hdet
      · cases hdet
      next firsts hfirsts =>
        rw [Bool.and_eq_true] at hdet
        exact firsts_distinct hfirsts (of_decide_eq_true hdet.2)
    cases hcase : flags.ignorecase with
    | true =>
      refine ((hcount hcase).and hdistinct).imp fun {a b} h => ?_
      obtain ⟨hex, c, cs, d, ds, rfl, rfl, -⟩ := h
      exact ⟨c, cs, d, ds, rfl, rfl, hex⟩
    | false =>
      refine hdistinct.imp fun {a b} h => ?_
      obtain ⟨c, cs, d, ds, rfl, rfl, hne⟩ := h
      refine ⟨c, cs, d, ds, rfl, rfl, fun char hboth => hne ?_⟩
      simp only [literalMatches, hcase, Bool.false_and, Bool.false_eq_true, if_false,
        beq_iff_eq] at hboth
      rw [← hboth.1, ← hboth.2]
  refine hexclusive.imp fun {a b} h s => ?_
  obtain ⟨c, cs, d, ds, rfl, rfl, hnot⟩ := h
  by_contra hboth
  rw [not_or] at hboth
  obtain ⟨_, hc⟩ := sequenceEnds_literal hboth.1
  obtain ⟨_, hd⟩ := sequenceEnds_literal hboth.2
  exact hnot _ ⟨hc, hd⟩

/-- Alternatives of which none matches. -/
theorem alternativeEnds_nil {flags : Flags} {alternatives : List SubPattern} {s : State text}
    (h : ∀ a ∈ alternatives, sequenceEnds tables text flags a s = []) :
    alternativeEnds tables text flags alternatives s = [] := by
  induction alternatives with
  | nil => rfl
  | cons a rest ih =>
    rw [alternativeEnds_cons, h a List.mem_cons_self, List.nil_append]
    exact ih fun b hb => h b (List.mem_cons_of_mem _ hb)

/-- Of branches that never both match, at most one contributes a way. -/
theorem alternativeEnds_unique {flags : Flags} {alternatives : List SubPattern}
    (hunique : ∀ a ∈ alternatives, Unique (sequenceEnds tables text flags a))
    (hdisjoint : alternatives.Pairwise fun a b => ∀ s : State text,
      sequenceEnds tables text flags a s = [] ∨ sequenceEnds tables text flags b s = []) :
    Unique (alternativeEnds tables text flags alternatives) := by
  intro s
  induction alternatives with
  | nil => exact Nat.zero_le _
  | cons a rest ih =>
    obtain ⟨ha, hrest⟩ := List.pairwise_cons.mp hdisjoint
    rw [alternativeEnds_cons, List.length_append]
    by_cases hempty : sequenceEnds tables text flags a s = []
    · rw [hempty, List.length_nil, Nat.zero_add]
      exact ih (fun b hb => hunique b (List.mem_cons_of_mem _ hb)) hrest
    · have hnil := @alternativeEnds_nil tables text flags _ _ fun b hb =>
        (ha b hb s).resolve_left hempty
      rw [hnil, List.length_nil, Nat.add_zero]
      exact hunique a List.mem_cons_self s

/-- Each branch has a sound shape. -/
abbrev SoundBranches (tables : CharTables) (text : List ℕ) (flags : Flags) (shapes : List Shape)
    (alternatives : List SubPattern) : Prop :=
  List.Forall₂ (fun shape a => Sound shape (sequenceEnds tables text flags a)) shapes
    alternatives

/-- The branches contribute at most the sum of their works. -/
theorem length_alternativeEnds_le {flags : Flags} {shapes : List Shape}
    {alternatives : List SubPattern}
    (hsound : SoundBranches tables text flags shapes alternatives)
    (hle : (shapes.map (·.work)).sum ≤ MAX_PATTERN_WORK) (s : State text) :
    (alternativeEnds tables text flags alternatives s).length ≤ (shapes.map (·.work)).sum := by
  induction hsound with
  | nil => exact Nat.zero_le _
  | cons hshape _ ih =>
    rw [List.map_cons, List.sum_cons] at hle ⊢
    rw [alternativeEnds_cons, List.length_append]
    exact Nat.add_le_add (hshape.bounded (by omega) s) (ih (by omega))

/-- Every branch of an alternation adds its work. -/
theorem Shape.le_branches_work {n : ℕ} (det : Bool) {shapes : List Shape} {shape : Shape}
    (hn : n ≤ MAX_PATTERN_WORK + 1) (hmem : shape ∈ shapes) (hle : n ≤ shape.work) :
    n ≤ (Shape.branches det shapes).work := by
  have hsum : shape.work ≤ (shapes.map (·.work)).sum :=
    List.single_le_sum (by simp) _ (List.mem_map_of_mem hmem)
  exact le_cap hn (hle.trans hsum)

/-- An alternation with a choice has at least two ways counted. -/
theorem Shape.branches_choices {det : Bool} {shapes : List Shape}
    (hpos : ∀ shape ∈ shapes, 1 ≤ shape.work)
    (hchoices : ∀ shape ∈ shapes, shape.ambiguous = true → 2 ≤ shape.work)
    (hamb : (Shape.branches det shapes).ambiguous = true) :
    2 ≤ (Shape.branches det shapes).work := by
  rcases Bool.or_eq_true _ _ |>.mp hamb with hover | hinner
  · have hmany : 1 < shapes.length := by simpa using (Bool.and_eq_true _ _ |>.mp hover).1
    have hsum : shapes.length ≤ (shapes.map (·.work)).sum := by
      simpa using List.length_le_sum_of_one_le (shapes.map (·.work)) (by simpa using hpos)
    exact le_cap two_le_MAX_PATTERN_WORK (Nat.le_trans hmany hsum)
  · obtain ⟨shape, hshape, h⟩ := List.any_eq_true.mp hinner
    exact le_branches_work _ two_le_MAX_PATTERN_WORK hshape (hchoices shape hshape h)

/-- Alternatives. -/
theorem Sound.branches {flags : Flags} {shapes : List Shape} {alternatives : List SubPattern}
    (hne : shapes ≠ []) (hsound : SoundBranches tables text flags shapes alternatives)
    (hcount : flags.ignorecase = true → deterministic tables.casefold alternatives = true →
      alternatives.Pairwise (Exclusive tables flags)) :
    Sound (.branches (deterministic tables.casefold alternatives) shapes)
      (alternativeEnds tables text flags alternatives) := by
  have hall : ∀ shape ∈ shapes, ∃ f : Matcher (State text), Sound shape f := fun shape hshape => by
    obtain ⟨a, _, h⟩ := hsound.exists_of_mem_left hshape
    exact ⟨_, h⟩
  refine ⟨?_, ?_, ?_, ?_⟩
  · obtain ⟨shape, hshape⟩ := List.exists_mem_of_ne_nil _ hne
    obtain ⟨f, hf⟩ := hall shape hshape
    exact Shape.le_branches_work _ (by decide) hshape hf.positive
  · refine Shape.branches_choices (fun shape h => ?_) fun shape h => ?_
    · obtain ⟨f, hf⟩ := hall shape h
      exact hf.positive
    · obtain ⟨f, hf⟩ := hall shape h
      exact hf.choices
  · intro hle s
    have hwork : (Shape.branches (deterministic tables.casefold alternatives) shapes).work
        = (shapes.map (·.work)).sum := cap_eq_of_le hle
    rw [hwork] at hle ⊢
    exact length_alternativeEnds_le hsound hle s
  · intro hamb
    obtain ⟨hover, hinner⟩ := Bool.or_eq_false_iff.mp hamb
    have hunique : ∀ a ∈ alternatives, Unique (sequenceEnds tables text flags a) := by
      intro a ha
      obtain ⟨shape, hshape, hs⟩ := hsound.exists_of_mem_right ha
      exact hs.unique (by simpa using (List.any_eq_false.mp hinner) shape hshape)
    refine alternativeEnds_unique hunique ?_
    rcases Bool.and_eq_false_iff.mp hover with hone | hdet
    · have hlength := hsound.length_eq
      have := of_decide_eq_false hone
      have hle : alternatives.length ≤ 1 := by omega
      rw [List.pairwise_iff_getElem]
      intro i j _ hj hij
      omega
    · have hdet' : deterministic tables.casefold alternatives = true := by simpa using hdet
      exact deterministic_disjoint hdet' fun h => hcount h hdet'

/-- A conditional group runs one of its branches, or nothing, depending on the state. -/
theorem Sound.conditional {det : Bool} {shapes : List Shape} {g : Matcher (State text)}
    (hne : shapes ≠ []) (hsound : ∀ shape ∈ shapes, ∃ f : Matcher (State text), Sound shape f)
    (hg : ∀ s, ∃ shape ∈ shapes, ∃ f, Sound shape f ∧ (g s = f s ∨ g s = [s])) :
    Sound (.branches det shapes) g := by
  refine ⟨?_, ?_, ?_, ?_⟩
  · obtain ⟨shape, hshape⟩ := List.exists_mem_of_ne_nil _ hne
    obtain ⟨f, hf⟩ := hsound shape hshape
    exact Shape.le_branches_work _ (by decide) hshape hf.positive
  · refine Shape.branches_choices (fun shape h => ?_) fun shape h => ?_
    · obtain ⟨f, hf⟩ := hsound shape h
      exact hf.positive
    · obtain ⟨f, hf⟩ := hsound shape h
      exact hf.choices
  · intro hle s
    obtain ⟨shape, hshape, f, hf, heq⟩ := hg s
    have hwork : shape.work ≤ MAX_PATTERN_WORK := by
      by_contra hlt
      have := Shape.le_branches_work det le_rfl hshape (not_le.mp hlt)
      omega
    have hways : (g s).length ≤ shape.work := by
      rcases heq with heq | heq <;> rw [heq]
      · exact hf.bounded hwork s
      · exact hf.positive
    exact Shape.le_branches_work _ (by omega) hshape hways
  · intro hamb s
    obtain ⟨_, hinner⟩ := Bool.or_eq_false_iff.mp hamb
    obtain ⟨shape, hshape, f, hf, heq⟩ := hg s
    rcases heq with heq | heq <;> rw [heq]
    · exact hf.unique (by simpa using (List.any_eq_false.mp hinner) shape hshape) s
    · exact le_rfl

end Foliqant.Compiler
