import Foliqant.Compiler.PatternShapes

/-!
# The work estimate bounds backtracking

For every accepted pattern whose quantifiers and alternations the estimate counts correctly
(`AllCounted`), the ways to match the pattern and each of its subpatterns from any position of a
value of at most `MAX_MATCH_LENGTH` characters are at most the estimated work. The proof is one
recursion over the parse tree that assembles the shape lemmas, and one that passes the bound down to
the subpatterns.
-/

namespace Foliqant.Compiler

open Backtracking

variable {tables : CharTables} {text : List ℕ}

/-! ## The parse tree -/

/-- A character matches in one way at most. -/
theorem consume_unique (test : ℕ → Bool) : Unique (consume test : Matcher (State text)) := fun s => by
  unfold consume
  split
  · split <;> simp
  · simp

/-- A character is one place. -/
theorem pos_of_mem_consume {test : ℕ → Bool} {s t : State text} (h : t ∈ consume test s) :
    t.pos = s.pos + 1 := by
  unfold consume at h
  split at h
  · split at h
    · rw [List.mem_singleton.mp h]
    · cases h
  · cases h

/-- A reference to a group matches in one way at most. -/
theorem matchGroup_unique (flags : Flags) (group : ℕ) :
    Unique (matchGroup tables flags group : Matcher (State text)) := fun s => by
  unfold matchGroup
  split
  · simp
  · split
    · split <;> simp
    · simp

/-- A lookahead or lookbehind commits to its first way. -/
theorem assert_unique (flags : Flags) (behind : Bool) (body : SubPattern) :
    Unique ((Node.assert behind body).ends tables text flags) := fun s => by
  simp only [Node.ends]
  split
  · simp
  · rw [List.length_map]
    exact commit_unique _ _

/-- What must not match matches in one way at most. -/
theorem assertNot_unique (flags : Flags) (behind : Bool) (body : SubPattern) :
    Unique ((Node.assertNot behind body).ends tables text flags) := fun s => by
  simp only [Node.ends]
  split
  · simp
  · split <;> simp

/-- A possessive repetition matches in one way at most. -/
theorem possessive_unique (flags : Flags) (range : RepeatRange) (body : SubPattern) :
    Unique ((Node.possessiveRepeat range body).ends tables text flags) := fun s => by
  simp only [Node.ends, List.length_map]
  exact (commit_unique _).iterate _ s

/-- Trying few iterations first changes no number of ways. -/
theorem length_minRepeat (flags : Flags) (range : RepeatRange) (body : SubPattern)
    (s : State text) : ((Node.minRepeat range body).ends tables text flags s).length
      = (range.ends (sequenceEnds tables text flags body) s).length := by
  simp only [Node.ends, RepeatRange.ends]
  exact (List.Perm.flatMap_left _ fun t _ => optionalLazy_perm _ _ _ t).length_eq

mutual

/-- The shape of an item describes the ways to match it. -/
theorem Node.sound (hlen : text.length ≤ MAX_MATCH_LENGTH) (flags : Flags) :
    ∀ (node : Node) {shape : Shape}, node.shape tables.casefold = .ok shape →
      node.Counted tables flags → (∀ body ∈ node.bodies flags, AllCounted tables body) →
        Sound shape (node.ends tables text flags)
  | .literal _, _, h, _, _ => by
    cases h
    exact .fixed (consume_unique _)
  | .notLiteral char, _, h, _, _ => by
    cases h
    exact .fixed (consume_unique fun c => !literalMatches tables flags char c)
  | .any, _, h, _, _ => by
    cases h
    exact .fixed (consume_unique fun c => flags.dotall || c != 10)
  | .inSet _ _, _, h, _, _ => by
    cases h
    exact .fixed (consume_unique _)
  | .at _, _, h, _, _ => by
    cases h
    refine .fixed fun s => ?_
    simp only [Node.ends]
    split <;> simp
  | .failure, _, h, _, _ => by
    cases h
    exact .fixed fun s => Nat.zero_le _
  | .groupref _ _, _, h, _, _ => by
    cases h
    exact .fixed (matchGroup_unique _ _)
  | .branch first others, shape, h, hcount, hbodies => by
    simp only [Node.shape, Except.bind_eq_ok, Except.pure_eq_ok] at h
    obtain ⟨b, hb, bs, hbs, rfl⟩ := h
    have hfirst := hbodies (flags, first) (by simp [Node.bodies])
    have hothers : ∀ a ∈ others, AllCounted tables (flags, a) := fun a ha =>
      hbodies (flags, a) (by simp [Node.bodies, ha])
    -- each alternative is sound on its own; `hcount` bounds the choice among them
    exact .branches (List.cons_ne_nil _ _)
      (.cons (sequence_sound hlen flags first hb hfirst) (shapes_sound hlen flags others hbs hothers))
      hcount
  | .subpattern group add del body, shape, h, _, hbodies => by
    have hbody := sequence_sound hlen (flags.combine add del) body h
      (hbodies _ (by simp [Node.bodies]))
    -- closing a group changes the states, not how many there are
    exact hbody.congr fun s => List.length_map _
  | .maxRepeat range body, shape, h, hcount, hbodies => by
    simp only [Node.shape, Except.bind_eq_ok] at h
    obtain ⟨b, hb, h⟩ := h
    have hbody := sequence_sound hlen flags body hb (hbodies _ (by simp [Node.bodies]))
    exact .repeat hlen hbody rfl (hcount b hb) h
  | .minRepeat range body, shape, h, hcount, hbodies => by
    simp only [Node.shape, Except.bind_eq_ok] at h
    obtain ⟨b, hb, h⟩ := h
    have hbody := sequence_sound hlen flags body hb (hbodies _ (by simp [Node.bodies]))
    -- a lazy repeat has the ways of the greedy one in another order
    exact (Sound.repeat hlen hbody rfl (hcount b hb) h).congr (length_minRepeat flags range body)
  | .possessiveRepeat range body, shape, h, _, hbodies => by
    simp only [Node.shape, Except.bind_eq_ok, Except.pure_eq_ok] at h
    obtain ⟨b, hb, rfl⟩ := h
    have hbody := sequence_sound hlen flags body hb (hbodies _ (by simp [Node.bodies]))
    -- what is never backtracked into ends in at most one way
    exact hbody.committed (possessive_unique flags range body)
  | .atomicGroup body, shape, h, _, hbodies => by
    simp only [Node.shape, Except.bind_eq_ok, Except.pure_eq_ok] at h
    obtain ⟨b, hb, rfl⟩ := h
    have hbody := sequence_sound hlen flags body hb (hbodies _ (by simp [Node.bodies]))
    exact hbody.committed (commit_unique _)
  | .assert behind body, shape, h, _, hbodies => by
    simp only [Node.shape, Except.bind_eq_ok, Except.pure_eq_ok] at h
    obtain ⟨b, hb, rfl⟩ := h
    have hbody := sequence_sound hlen flags body hb (hbodies _ (by simp [Node.bodies]))
    exact hbody.committed (assert_unique flags behind body)
  | .assertNot behind body, shape, h, _, hbodies => by
    simp only [Node.shape, Except.bind_eq_ok, Except.pure_eq_ok] at h
    obtain ⟨b, hb, rfl⟩ := h
    have hbody := sequence_sound hlen flags body hb (hbodies _ (by simp [Node.bodies]))
    exact hbody.committed (assertNot_unique flags behind body)
  | .grouprefExists group yes none, shape, h, _, hbodies => by
    simp only [Node.shape, Except.bind_eq_ok, Except.pure_eq_ok] at h
    obtain ⟨b, hb, rfl⟩ := h
    have hyes := sequence_sound hlen flags yes hb (hbodies _ (by simp [Node.bodies]))
    refine .conditional (List.cons_ne_nil _ _) (by simpa using ⟨_, hyes⟩) fun s => ?_
    refine ⟨b, List.mem_singleton_self b, _, hyes, ?_⟩
    simp only [Node.ends]
    split
    · exact Or.inl rfl
    · exact Or.inr rfl
  | .grouprefExists group yes (some no), shape, h, _, hbodies => by
    simp only [Node.shape, Except.bind_eq_ok, Except.pure_eq_ok] at h
    obtain ⟨b, hb, c, hc, rfl⟩ := h
    have hyes := sequence_sound hlen flags yes hb (hbodies _ (by simp [Node.bodies]))
    have hno := sequence_sound hlen flags no hc (hbodies _ (by simp [Node.bodies]))
    have hall : ∀ shape ∈ [b, c], ∃ f : Matcher (State text), Sound shape f := by
      simpa using ⟨⟨_, hyes⟩, ⟨_, hno⟩⟩
    refine .conditional (List.cons_ne_nil _ _) hall fun s => ?_
    simp only [Node.ends]
    split
    · exact ⟨b, by simp, _, hyes, Or.inl rfl⟩
    · exact ⟨c, by simp, _, hno, Or.inl rfl⟩

/-- The loop of `sequence` describes the items so far followed by the rest. -/
theorem sequenceFrom_sound (hlen : text.length ≤ MAX_MATCH_LENGTH) (flags : Flags) :
    ∀ (items : SubPattern) {acc shape : Shape} {f : Matcher (State text)},
      sequenceFrom tables.casefold acc items = .ok shape → AllCounted tables (flags, items) →
        Sound acc f → Sound shape fun s => (f s).flatMap (sequenceEnds tables text flags items)
  | [], acc, shape, f, h, _, hf => by
    cases h
    exact hf.congr fun s => by simp [sequenceEnds]
  | node :: rest, acc, shape, f, h, hcount, hf => by
    simp only [sequenceFrom, Except.bind_eq_ok] at h
    obtain ⟨b, hb, h⟩ := h
    have hnode := Node.sound hlen flags node hb (hcount _ (.self _) node List.mem_cons_self)
      fun body hbody => hcount.body List.mem_cons_self hbody
    refine (sequenceFrom_sound hlen flags rest h hcount.rest (hf.seq hnode)).congr fun s => ?_
    rw [List.flatMap_assoc]
    rfl

/-- The shape of a subpattern describes the ways to match it. -/
theorem sequence_sound (hlen : text.length ≤ MAX_MATCH_LENGTH) (flags : Flags)
    (items : SubPattern) {shape : Shape} (h : sequenceFrom tables.casefold .fixed items = .ok shape)
    (hcount : AllCounted tables (flags, items)) :
    Sound shape (sequenceEnds tables text flags items) := by
  have hunit : Sound .fixed (fun s : State text => [s]) := .fixed fun s => le_rfl
  refine (sequenceFrom_sound hlen flags items h hcount hunit).congr fun s => ?_
  simp

/-- Each further branch has a sound shape. -/
theorem shapes_sound (hlen : text.length ≤ MAX_MATCH_LENGTH) (flags : Flags) :
    ∀ (alternatives : List SubPattern) {branches : List Shape},
      shapes tables.casefold alternatives = .ok branches →
        (∀ a ∈ alternatives, AllCounted tables (flags, a)) →
          SoundBranches tables text flags branches alternatives
  | [], branches, h, _ => by
    cases h
    exact .nil
  | a :: rest, branches, h, hcount => by
    simp only [shapes, Except.bind_eq_ok, Except.pure_eq_ok] at h
    obtain ⟨b, hb, bs, hbs, rfl⟩ := h
    exact .cons (sequence_sound hlen flags a hb (hcount a List.mem_cons_self))
      (shapes_sound hlen flags rest hbs fun c hc => hcount c (List.mem_cons_of_mem _ hc))

end

/-! ## Subpatterns -/

/-- An accepted sequence has accepted items: none of them exceeds the bound on its own. -/
theorem sequenceFrom_item (flags : Flags) :
    ∀ (items : SubPattern) {acc shape : Shape},
      sequenceFrom tables.casefold acc items = .ok shape → shape.work ≤ MAX_PATTERN_WORK →
        AllCounted tables (flags, items) → 1 ≤ acc.work → acc.work ≤ MAX_PATTERN_WORK ∧
          ∀ node ∈ items, ∃ b, node.shape tables.casefold = .ok b ∧ b.work ≤ MAX_PATTERN_WORK
  | [], acc, shape, h, hle, _, _ => by
    cases h
    exact ⟨hle, by simp⟩
  | node :: rest, acc, shape, h, hle, hcount, hpos => by
    simp only [sequenceFrom, Except.bind_eq_ok] at h
    obtain ⟨b, hb, h⟩ := h
    have hnode : Sound b (node.ends tables [] flags) :=
      Node.sound (by simp) flags node hb (hcount _ (.self _) node List.mem_cons_self)
        fun body hbody => hcount.body List.mem_cons_self hbody
    have hacc : 1 ≤ (acc.seq b).work := le_cap (by decide) (Nat.mul_pos hpos hnode.positive)
    obtain ⟨hseq, hrest⟩ := sequenceFrom_item flags rest h hle hcount.rest hacc
    have hprod : acc.work * b.work ≤ MAX_PATTERN_WORK := le_of_cap_le hseq
    refine ⟨(Nat.le_mul_of_pos_right _ hnode.positive).trans hprod, fun item hitem => ?_⟩
    rcases List.mem_cons.mp hitem with rfl | hitem
    · exact ⟨b, hb, (Nat.le_mul_of_pos_left _ hpos).trans hprod⟩
    · exact hrest item hitem

/-- A subpattern within the bound: its estimate exists and is not capped. -/
def Within (tables : CharTables) (part : Flags × SubPattern) : Prop :=
  ∃ shape, sequence tables.casefold part.2 = .ok shape ∧ shape.work ≤ MAX_PATTERN_WORK

/-- The shapes of alternatives are within the limit. -/
theorem shapes_within {alternatives : List SubPattern} {branches : List Shape}
    (h : shapes tables.casefold alternatives = .ok branches)
    (hle : ∀ b ∈ branches, b.work ≤ MAX_PATTERN_WORK) (flags : Flags) :
    ∀ a ∈ alternatives, Within tables (flags, a) := by
  induction alternatives generalizing branches with
  | nil => simp
  | cons a rest ih =>
    simp only [shapes, Except.bind_eq_ok, Except.pure_eq_ok] at h
    obtain ⟨b, hb, bs, hbs, rfl⟩ := h
    intro c hc
    rcases List.mem_cons.mp hc with rfl | hc
    · exact ⟨b, hb, hle b List.mem_cons_self⟩
    · exact ih hbs (fun d hd => hle d (List.mem_cons_of_mem _ hd)) c hc

/-- Below the bound every branch of an alternation is below it. -/
theorem Shape.branch_le {det : Bool} {shapes : List Shape}
    (h : (Shape.branches det shapes).work ≤ MAX_PATTERN_WORK) :
    ∀ shape ∈ shapes, shape.work ≤ MAX_PATTERN_WORK := by
  intro shape hshape
  by_contra hlt
  have := Shape.le_branches_work det le_rfl hshape (not_le.mp hlt)
  omega

/-- The body of a quantifier within the bound is within the bound. -/
theorem repeat_within {flags : Flags} {range : RepeatRange} {body : SubPattern} {b c : Shape}
    (hbody : sequence tables.casefold body = .ok b) (h : b.repeat range.low range.high = .ok c)
    (hle : c.work ≤ MAX_PATTERN_WORK) (hcount : range.Counted tables flags body b)
    (hall : AllCounted tables (flags, body)) : Within tables (flags, body) := by
  have hsound : Sound b (sequenceEnds tables [] flags body) :=
    sequence_sound (by simp) flags body hbody hall
  refine ⟨b, hbody, ?_⟩
  rw [(Shape.repeat_eq_ok h).1] at hle
  by_contra hlt
  have := Shape.le_repeatWork range.low hsound.positive le_rfl (not_le.mp hlt)
    hcount.nonzero
  have := le_of_cap_le hle
  omega

/-- The body of a part that is left after its first match has the work of the part. -/
theorem committed_within {flags : Flags} {body : SubPattern} {b : Shape}
    (h : (do return (← sequence tables.casefold body).committed) = Except.ok b)
    (hle : b.work ≤ MAX_PATTERN_WORK) : Within tables (flags, body) := by
  simp only [Except.bind_eq_ok, Except.pure_eq_ok] at h
  obtain ⟨c, hc, rfl⟩ := h
  exact ⟨c, hc, hle⟩

/-- The subpatterns directly inside an item within the bound are within the bound. -/
theorem Node.bodies_within {flags : Flags} {node : Node} {b : Shape}
    (h : node.shape tables.casefold = .ok b) (hle : b.work ≤ MAX_PATTERN_WORK)
    (hcount : node.Counted tables flags) (hbodies : ∀ body ∈ node.bodies flags,
      AllCounted tables body) : ∀ body ∈ node.bodies flags, Within tables body := by
  cases node with
  | literal _ | notLiteral _ | any | inSet _ _ | «at» _ | failure | groupref _ _ =>
    simp [Node.bodies]
  | branch first others =>
    simp only [Node.shape, Except.bind_eq_ok, Except.pure_eq_ok] at h
    obtain ⟨c, hc, cs, hcs, rfl⟩ := h
    have hbranches := Shape.branch_le hle
    simp only [Node.bodies, List.map_cons, List.mem_cons, List.mem_map]
    rintro body (rfl | ⟨a, ha, rfl⟩)
    · exact ⟨c, hc, hbranches c List.mem_cons_self⟩
    · exact shapes_within hcs (fun d hd => hbranches d (List.mem_cons_of_mem _ hd)) flags a ha
  | subpattern _ add del body =>
    simp only [Node.bodies, List.mem_singleton]
    rintro _ rfl
    exact ⟨b, h, hle⟩
  | maxRepeat range body | minRepeat range body =>
    simp only [Node.shape, Except.bind_eq_ok] at h
    obtain ⟨c, hc, h⟩ := h
    simp only [Node.bodies, List.mem_singleton] at hbodies ⊢
    rintro _ rfl
    exact repeat_within hc h hle (hcount c hc) (hbodies _ rfl)
  -- a committed body keeps the work of its own shape
  | possessiveRepeat _ body | atomicGroup body | assert _ body | assertNot _ body =>
    simp only [Node.bodies, List.mem_singleton]
    rintro _ rfl
    rw [Node.shape] at h
    exact committed_within h hle
  | grouprefExists _ yes no =>
    cases no with
    | none =>
      simp only [Node.shape, Except.bind_eq_ok, Except.pure_eq_ok] at h
      obtain ⟨c, hc, rfl⟩ := h
      simp only [Node.bodies, List.mem_singleton]
      rintro _ rfl
      exact ⟨c, hc, Shape.branch_le hle c (by simp)⟩
    | some no =>
      simp only [Node.shape, Except.bind_eq_ok, Except.pure_eq_ok] at h
      obtain ⟨c, hc, d, hd, rfl⟩ := h
      simp only [Node.bodies, List.mem_cons, List.not_mem_nil, or_false]
      rintro _ (rfl | rfl)
      · exact ⟨c, hc, Shape.branch_le hle c (by simp)⟩
      · exact ⟨d, hd, Shape.branch_le hle d (by simp)⟩

/-- Every subpattern of a pattern within the bound is within the bound. -/
theorem Part.within {pattern part : Flags × SubPattern} (hpart : Part pattern part)
    (hwithin : Within tables pattern) (hcount : AllCounted tables pattern) : Within tables part := by
  induction hpart with
  | self => exact hwithin
  | @inside flags items node body part item direct deeper ih =>
    obtain ⟨shape, hshape, hle⟩ := hwithin
    obtain ⟨b, hb, hble⟩ := (sequenceFrom_item flags items hshape hle hcount le_rfl).2 node item
    have hbodies : ∀ body ∈ node.bodies flags, AllCounted tables body :=
      fun body direct => hcount.body item direct
    refine ih (Node.bodies_within hb hble (hcount _ (.self _) node item) hbodies body direct) ?_
    exact hbodies body direct

/-- A part of a counted pattern is counted. -/
theorem AllCounted.part {pattern part : Flags × SubPattern} (hpart : Part pattern part)
    (hcount : AllCounted tables pattern) : AllCounted tables part := by
  induction hpart with
  | self => exact hcount
  | inside item direct _ ih => exact ih (hcount.body item direct)

/-! ## Accepted patterns -/

/-- The ways to match a subpattern from any state of any admitted value are at most its estimated
work, which is within the bound. -/
def BacktrackingBounded (tables : CharTables) (part : Flags × SubPattern) : Prop :=
  ∃ shape, sequence tables.casefold part.2 = .ok shape ∧ shape.work ≤ MAX_PATTERN_WORK ∧
    ∀ text : List ℕ, text.length ≤ MAX_MATCH_LENGTH → ∀ start : State text,
      (sequenceEnds tables text part.1 part.2 start).length ≤ shape.work

/-- An accepted pattern has a shape within the limit. -/
theorem checkPattern_eq_ok {casefold : ℕ → List ℕ} {items : SubPattern}
    (h : checkPattern casefold (some items) = .ok ()) :
    ∃ shape, sequence casefold items = .ok shape ∧ shape.work ≤ MAX_PATTERN_WORK := by
  simp only [checkPattern, Except.bind_eq_ok] at h
  obtain ⟨shape, hshape, h⟩ := h
  refine ⟨shape, hshape, ?_⟩
  by_contra hlt
  rw [if_pos (not_le.mp hlt)] at h
  cases h

/-- An accepted pattern whose items are counted correctly has bounded backtracking, and so has each
of its subpatterns. -/
theorem checkPattern_bounded (tables : CharTables) (flags : Flags) (items : SubPattern)
    (haccepted : checkPattern tables.casefold (some items) = .ok ())
    (hcount : AllCounted tables (flags, items)) :
    ∀ part, Part (flags, items) part → BacktrackingBounded tables part := by
  intro part hpart
  obtain ⟨shape, hshape, hle⟩ := hpart.within (checkPattern_eq_ok haccepted) hcount
  refine ⟨shape, hshape, hle, fun text hlen start => ?_⟩
  exact (sequence_sound hlen part.1 part.2 hshape (hcount.part hpart)).bounded hle start

/-- The tables restricted to ASCII. -/
def asciiTables : CharTables where
  casefold char := [asciiLower char]
  lower := asciiLower
  cased := asciiCased
  extraCases _ := []
  category := asciiCategory

/-- `(?:ab|cd)+` -/
def repeatedPairs : SubPattern :=
  [.maxRepeat ⟨1, MAXREPEAT, by decide⟩
    [.branch [.literal 97, .literal 98] [[.literal 99, .literal 100]]]]

/-- Two literals in sequence are counted correctly. -/
theorem allCounted_literals (flags : Flags) (a b : ℕ) :
    AllCounted tables (flags, [.literal a, .literal b]) := by
  refine allCounted_iff.mpr fun node hnode => ?_
  simp only [List.mem_cons, List.not_mem_nil, or_false] at hnode
  rcases hnode with rfl | rfl <;> exact ⟨trivial, by simp [Node.bodies]⟩

/-- Every alternative of the pair consumes a character. -/
theorem pair_consumes {flags : Flags} {a b c d : ℕ} :
    Consumes (sequenceEnds tables text flags
      [.branch [.literal a, .literal b] [[.literal c, .literal d]]]) := by
  intro s t ht
  simp only [sequenceEnds_cons, Node.ends, alternativeEnds, List.append_nil, List.mem_flatMap,
    List.mem_append, sequenceEnds_nil] at ht
  obtain ⟨u, ⟨v, hv, w, hw, hu⟩ | ⟨v, hv, w, hw, hu⟩, ht⟩ := ht
  all_goals
    have := pos_of_mem_consume hv
    have := pos_of_mem_consume hw
    simp only [List.mem_singleton] at hu ht
    subst hu ht
    omega

/-- The accepted pattern is bounded. -/
theorem repeatedPairs_bounded :
    BacktrackingBounded asciiTables ({ unicode := true }, repeatedPairs) := by
  refine checkPattern_bounded asciiTables _ repeatedPairs (by decide) ?_ _ (.self _)
  refine allCounted_iff.mpr fun node hnode => ?_
  rw [List.mem_singleton.mp hnode]
  refine ⟨fun shape hshape => ?_, fun body hbody => ?_⟩
  · have hone : sequence asciiTables.casefold
        [.branch [.literal 97, .literal 98] [[.literal 99, .literal 100]]]
          = .ok ⟨2, false, false, false⟩ := by decide
    obtain rfl := Except.ok.inj (hone.symm.trans hshape)
    exact ⟨by simp, by simp, fun _ _ _ => pair_consumes⟩
  · rw [List.mem_singleton.mp hbody]
    refine allCounted_iff.mpr fun branch hbranch => ?_
    rw [List.mem_singleton.mp hbranch]
    refine ⟨fun hcase => absurd hcase (by decide), fun alternative halternative => ?_⟩
    simp only [Node.bodies, List.map_cons, List.map_nil, List.mem_cons, List.not_mem_nil,
      or_false] at halternative
    rcases halternative with rfl | rfl <;> exact allCounted_literals _ _ _

/-- `(?:a*){46}`: the choices of the 46 iterations multiply, the estimate counts those of one. -/
def countedStars : SubPattern :=
  [.maxRepeat ⟨46, 46, le_rfl⟩ [.maxRepeat ⟨0, MAXREPEAT, Nat.zero_le _⟩ [.literal 97]]]

set_option maxRecDepth 100000 in
/-- Another accepted pattern is not. -/
theorem countedStars_unbounded :
    ¬ ∀ (tables : CharTables) (flags : Flags) (items : SubPattern),
      checkPattern tables.casefold (some items) = .ok () →
        ∀ part, Part (flags, items) part → BacktrackingBounded tables part := by
  intro hall
  obtain ⟨shape, hshape, -, hways⟩ :=
    hall asciiTables { unicode := true } countedStars (by decide) _ (.self _)
  have hwork : shape = ⟨1025, true, true, false⟩ := by
    have : sequence asciiTables.casefold countedStars = .ok ⟨1025, true, true, false⟩ := by decide
    exact Except.ok.inj (hshape.symm.trans this)
  subst hwork
  have hcount := hways [97, 97] (by decide) ⟨0, [], by decide⟩
  revert hcount
  decide +kernel

end Foliqant.Compiler
