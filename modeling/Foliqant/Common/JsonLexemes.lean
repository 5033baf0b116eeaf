import Mathlib.Data.List.TakeWhile
import Foliqant.Common.JsonText

/-!
# Strings and numbers of JSON text

Reading a written string gives its code points back with surrogates joined to pairs
(`scanChars_escape`), reading a written number the number, whatever ends it (`scanNumber_text`), and what
the number reader accepts follows the grammar (`scanNumber_sound`). What the string reader accepts it
accepts in the same way when more text follows (`scanChars_extend`).
-/

namespace JsonText

/-! ## Strings -/

/-- The high surrogates. -/
theorem isHigh_iff {unit : ℕ} : isHigh unit = true ↔ 0xD800 ≤ unit ∧ unit ≤ 0xDBFF := by
  simp [isHigh]

/-- The low surrogates. -/
theorem isLow_iff {unit : ℕ} : isLow unit = true ↔ 0xDC00 ≤ unit ∧ unit ≤ 0xDFFF := by
  simp [isLow]

/-- A hexadecimal digit reads back. -/
theorem hexValue_digitChar {d : ℕ} (h : d < 16) : hexValue d.digitChar = some d := by
  have hall : ∀ d < 16, hexValue (Nat.digitChar d) = some d := by decide
  exact hall d h

/-- Four hexadecimal digits read back. -/
theorem scanUnit_hex4 {unit : ℕ} (h : unit < 65536) (rest : List Char) :
    scanUnit (hex4 unit ++ rest) = some (unit, rest) := by
  simp only [hex4, List.cons_append, List.nil_append, scanUnit,
    hexValue_digitChar (Nat.mod_lt _ (by decide : 0 < 16))]
  have hunit : unit / 4096 % 16 * 4096 + unit / 256 % 16 * 256 + unit / 16 % 16 * 16 + unit % 16
      = unit := by omega
  rw [hunit]

/-- A character is not a surrogate. -/
theorem toNat_char (c : Char) : c.toNat < 0xD800 ∨ 0xDFFF < c.toNat ∧ c.toNat < 0x110000 :=
  c.valid

/-- No character is a high surrogate. -/
theorem not_isHigh (c : Char) : ¬ isHigh c.toNat = true := by
  have hc := toNat_char c
  rw [isHigh_iff]
  omega

/-- No character is a low surrogate. -/
theorem not_isLow (c : Char) : ¬ isLow c.toNat = true := by
  have hc := toNat_char c
  rw [isLow_iff]
  omega

/-- The unit of a character. -/
theorem Point.ofUnit_toNat (c : Char) : Point.ofUnit c.toNat = .char c := by
  have hc := toNat_char c
  rw [Point.ofUnit, dif_neg (by omega), Char.ofNat_toNat]

/-- The unit of a surrogate. -/
theorem Point.ofUnit_surrogate (unit : Surrogate) : Point.ofUnit unit.1 = .surrogate unit :=
  dif_pos unit.2

/-- A character of the basic plane reads back. -/
theorem scanUnicode_bmp {c : Char} (h : c.toNat < 0x10000) (rest : List Char) :
    scanUnicode (hex4 c.toNat ++ rest) = some (.char c, rest) := by
  unfold scanUnicode
  simp only [scanUnit_hex4 h, if_neg (not_isHigh c), Point.ofUnit_toNat]

/-- A high surrogate reads as a pair with a low one that follows it. -/
theorem scanUnicode_joined {high low : ℕ} (hhigh : isHigh high = true) (hlow : isLow low = true)
    (rest : List Char) : scanUnicode (hex4 high ++ (unicodeEscape low ++ rest))
      = some (.char (pairChar high low), rest) := by
  have hfirst : high < 65536 := by
    rw [isHigh_iff] at hhigh
    omega
  have hsecond : low < 65536 := by
    rw [isLow_iff] at hlow
    omega
  unfold scanUnicode
  simp only [scanUnit_hex4 hfirst, if_pos hhigh, unicodeEscape, List.cons_append, scanLow,
    scanUnit_hex4 hsecond, if_pos hlow]

/-- A surrogate that no pair starts with reads back. -/
theorem scanUnicode_alone (unit : Surrogate) {rest : List Char}
    (alone : isHigh unit.1 = true → scanLow unit.1 rest = none) :
    scanUnicode (hex4 unit.1 ++ rest) = some (.surrogate unit, rest) := by
  have hunit : unit.1 < 65536 := by
    have := unit.2.2
    omega
  have hlow : (if isHigh unit.1 then scanLow unit.1 rest else none) = none := by
    split_ifs with hhigh
    · exact alone hhigh
    · rfl
  unfold scanUnicode
  simp only [scanUnit_hex4 hunit, hlow, Point.ofUnit_surrogate]

/-- A character beyond the basic plane is a pair of surrogates. -/
theorem exists_pair {c : Char} (h : 0x10000 ≤ c.toNat) :
    isHigh (0xD800 + (c.toNat - 0x10000) / 0x400) = true ∧
      isLow (0xDC00 + (c.toNat - 0x10000) % 0x400) = true ∧
      pairChar (0xD800 + (c.toNat - 0x10000) / 0x400) (0xDC00 + (c.toNat - 0x10000) % 0x400) = c := by
  have hmax : c.toNat < 0x110000 := by
    have := toNat_char c
    clear h
    omega
  obtain ⟨offset, hsum⟩ := Nat.exists_eq_add_of_le h
  rw [hsum] at hmax
  have hsub : c.toNat - 0x10000 = offset := by omega
  have hcode : 0x10000 + (0xD800 + offset / 0x400 - 0xD800) * 0x400
      + (0xDC00 + offset % 0x400 - 0xDC00) = 0x10000 + offset := by omega
  rw [hsub]
  refine ⟨isHigh_iff.mpr ⟨by omega, by omega⟩, isLow_iff.mpr ⟨by omega, by omega⟩, ?_⟩
  rw [pairChar, hcode, ← hsum, Char.ofNat_toNat]

/-- The pair of a character beyond the units reads back. -/
theorem scanUnicode_pair {c : Char} (h : 0x10000 ≤ c.toNat) (rest : List Char) :
    scanUnicode (hex4 (0xD800 + (c.toNat - 0x10000) / 0x400)
      ++ (unicodeEscape (0xDC00 + (c.toNat - 0x10000) % 0x400) ++ rest)) = some (.char c, rest) := by
  obtain ⟨hhigh, hlow, hpair⟩ := exists_pair h
  rw [scanUnicode_joined hhigh hlow, hpair]

/-- An escape is read by its digits. -/
theorem scanChar_unicodeEscape (unit : ℕ) (rest : List Char) :
    scanChar (unicodeEscape unit ++ rest) = scanUnicode (hex4 unit ++ rest) := rfl

/-- An escaped character reads back. -/
theorem scanChar_escapeChar (c : Char) (rest : List Char) :
    scanChar (escapeChar c ++ rest) = some (.char c, rest) := by
  unfold escapeChar
  split_ifs with h1 h2 h3 h4 h5 h6 h7 hprint hbmp
  · subst h1
    rfl
  · subst h2
    rfl
  · subst h3
    rfl
  · subst h4
    rfl
  · subst h5
    rfl
  · subst h6
    rfl
  · subst h7
    rfl
  · have hlt : ¬ c.toNat < 32 := by omega
    simp only [List.cons_append, List.nil_append, scanChar, if_neg h2, if_neg hlt]
  · rw [scanChar_unicodeEscape, scanUnicode_bmp hbmp]
  · rw [List.append_assoc, scanChar_unicodeEscape, scanUnicode_pair (not_lt.mp hbmp)]

/-- No escaped character ends the string. -/
theorem escapeChar_head (c : Char) (rest : List Char) :
    (escapeChar c ++ rest).head? ≠ some '"' := by
  unfold escapeChar
  split_ifs with h1 <;> simp_all [unicodeEscape]

/-- No escaped code point ends the string. -/
theorem escapePoint_head (p : Point) (rest : List Char) :
    (escapePoint p ++ rest).head? ≠ some '"' := by
  cases p with
  | char c => exact escapeChar_head c rest
  | surrogate unit => simp [escapePoint, unicodeEscape]

/-- Every code point has a text. -/
theorem escapePoint_ne_nil (p : Point) : escapePoint p ≠ [] := by
  cases p with
  | char c =>
    simp only [escapePoint, escapeChar]
    split_ifs <;> simp [unicodeEscape]
  | surrogate unit => simp [escapePoint, unicodeEscape]

/-! ### Pairs of surrogates -/

/-- Only an escape can be the rest of a pair. -/
theorem scanLow_of_ne {high : ℕ} {c : Char} {rest : List Char} (h : c ≠ '\\') :
    scanLow high (c :: rest) = none := by
  unfold scanLow
  split
  next heq => exact absurd (List.cons.inj heq).1 h
  next => rfl

/-- Another escape is no low surrogate. -/
theorem scanLow_of_ne_u {high : ℕ} {e : Char} {rest : List Char} (h : e ≠ 'u') :
    scanLow high ('\\' :: e :: rest) = none := by
  unfold scanLow
  split
  next heq => exact absurd (List.cons.inj (List.cons.inj heq).2).1 h
  next => rfl

/-- An escape is a low surrogate or not, by its unit. -/
theorem scanLow_unicodeEscape {high unit : ℕ} (h : unit < 65536) (rest : List Char) :
    scanLow high (unicodeEscape unit ++ rest) =
      if isLow unit then some (pairChar high unit, rest) else none := by
  simp only [unicodeEscape, List.cons_append, scanLow, scanUnit_hex4 h]

/-- A character is not the rest of a pair. -/
theorem scanLow_escapeChar (high : ℕ) (c : Char) (rest : List Char) :
    scanLow high (escapeChar c ++ rest) = none := by
  unfold escapeChar
  split_ifs with h1 h2 h3 h4 h5 h6 h7 hprint hbmp
  · exact scanLow_of_ne_u (by decide)
  · exact scanLow_of_ne_u (by decide)
  · exact scanLow_of_ne_u (by decide)
  · exact scanLow_of_ne_u (by decide)
  · exact scanLow_of_ne_u (by decide)
  · exact scanLow_of_ne_u (by decide)
  · exact scanLow_of_ne_u (by decide)
  · exact scanLow_of_ne h2
  · rw [scanLow_unicodeEscape hbmp, if_neg (not_isLow c)]
  · have hhigh := isHigh_iff.mp (exists_pair (not_lt.mp hbmp)).1
    rw [List.append_assoc, scanLow_unicodeEscape (by omega), if_neg]
    rw [isLow_iff]
    omega

/-- What a high surrogate makes a pair with. -/
theorem scanLow_points (high : ℕ) (ps : List Point) (rest : List Char) :
    scanLow high (ps.flatMap escapePoint ++ '"' :: rest) =
      match ps with
      | .surrogate low :: more =>
          if isLow low.1 then some (pairChar high low.1, more.flatMap escapePoint ++ '"' :: rest)
          else none
      | _ => none := by
  cases ps with
  | nil => exact scanLow_of_ne (by decide)
  | cons p more =>
    rw [List.flatMap_cons, List.append_assoc]
    cases p with
    | char c => exact scanLow_escapeChar high c _
    | surrogate low => exact scanLow_unicodeEscape (by have := low.2.2; omega) _

/-- A surrogate that is not high starts no pair. -/
theorem joinPoint_of_not_high {unit : Surrogate} (h : isHigh unit.1 = false) (rest : List Point) :
    joinPoint (.surrogate unit) rest = .surrogate unit :: rest := by
  rcases rest with _ | ⟨_ | low, more⟩
  · rfl
  · rfl
  · rw [joinPoint, h]
    rfl

/-- A surrogate that is not low ends no pair. -/
theorem joinPoint_of_not_low {high low : Surrogate} (h : isLow low.1 = false) (rest : List Point) :
    joinPoint (.surrogate high) (.surrogate low :: rest) =
    .surrogate high :: .surrogate low :: rest := by
  rw [joinPoint, h, Bool.and_false]
  rfl

/-- A low surrogate is not a high one. -/
theorem not_isHigh_of_isLow {unit : ℕ} (h : isLow unit = true) : isHigh unit = false := by
  rw [isLow_iff] at h
  rw [← Bool.not_eq_true, isHigh_iff]
  omega

/-- Nothing is left to join. -/
theorem joinPairs_joinPairs (ps : List Point) : joinPairs (joinPairs ps) = joinPairs ps := by
  induction ps with
  | nil => rfl
  | cons p ps ih =>
    have step (p : Point) (rest : List Point) :
      joinPairs (p :: rest) = joinPoint p (joinPairs rest) := rfl
    rw [step]
    generalize joinPairs ps = joined at ih
    unfold joinPoint
    split
    next high low more =>
      split
      next both =>
        have hlow := ((Bool.and_eq_true _ _).mp both).2
        rw [step, joinPoint_of_not_high (not_isHigh_of_isLow hlow)] at ih
        rw [step, (List.cons.inj ih).2]
        rfl
      next apart =>
        rw [step, ih, joinPoint, if_neg apart]
    next p rest apart =>
      rw [step, ih]
      unfold joinPoint
      split
      next high low more => exact absurd rfl (apart high low more rfl)
      next => rfl

/-- Only a low surrogate is joined with the high one before it. -/
theorem joinPairs_surrogate (high : Surrogate) (ps : List Point) :
    joinPairs (.surrogate high :: ps) =
      match ps with
      | .surrogate low :: more =>
          if isHigh high.1 && isLow low.1 then .char (pairChar high.1 low.1) :: joinPairs more
          else .surrogate high :: joinPairs ps
      | _ => .surrogate high :: joinPairs ps := by
  show joinPoint (.surrogate high) (joinPairs ps) = _
  rcases ps with _ | ⟨_ | low, more⟩
  · rfl
  · rfl
  · have tail : joinPairs (.surrogate low :: more) = joinPoint (.surrogate low) (joinPairs more) :=
      rfl
    rw [tail]
    cases hlow : isLow low.1 with
    | true =>
      rw [joinPoint_of_not_high (not_isHigh_of_isLow hlow), joinPoint]
    | false =>
      simp only [hlow, Bool.and_false, Bool.false_eq_true, if_false]
      rcases joinPairs more with _ | ⟨_ | next, rest⟩
      · exact joinPoint_of_not_low hlow []
      · exact joinPoint_of_not_low hlow _
      · rw [joinPoint]
        split_ifs
        · rfl
        · exact joinPoint_of_not_low hlow _

/-- Characters are no halves of pairs. -/
theorem joinPairs_chars (cs : List Char) : joinPairs (cs.map .char) = cs.map .char := by
  induction cs with
  | nil => rfl
  | cons c cs ih =>
    rw [List.map_cons, joinPairs, List.foldr_cons]
    exact congrArg _ ih

/-- Characters are characters. -/
theorem mapM_char? (cs : List Char) : (cs.map Point.char).mapM Point.char? = some cs := by
  induction cs with
  | nil => rfl
  | cons c cs ih =>
    rw [List.map_cons, List.mapM_cons, ih]
    rfl

/-- Strings of characters; no surrogate is one. -/
instance : Text String where
  points s := s.toList.map .char
  ofPoints points := (points.mapM Point.char?).map String.ofList
  joined := id
  ofString := id
  ofPoints_joinPairs s := by
    rw [joinPairs_chars, mapM_char?, Option.map_some, String.ofList_toList, id]
  joined_joined _ := rfl
  joined_ofString _ := rfl
  ofString_injective _ _ same := same

instance : Text PyText where
  points := id
  ofPoints := some
  joined := joinPairs
  ofString text := text.toList.map .char
  ofPoints_joinPairs _ := rfl
  joined_joined := joinPairs_joinPairs
  joined_ofString text := joinPairs_chars text.toList
  ofString_injective _ _ same :=
    String.toList_injective (List.map_injective_iff.mpr (fun _ _ => Point.char.inj) same)

/-- The code points of a written string read back, with surrogates joined to pairs. -/
theorem scanChars_escape : ∀ (ps : List Point) (rest : List Char) {fuel : ℕ},
    (ps.flatMap escapePoint).length < fuel →
    scanChars fuel (ps.flatMap escapePoint ++ '"' :: rest) = some (joinPairs ps, rest)
  | _, _, 0, hfuel => absurd hfuel (Nat.not_lt_zero _)
  | [], rest, fuel + 1, _ => by
    simp [scanChars, joinPairs]
  | p :: ps, rest, fuel + 1, hfuel => by
    have hpos := List.length_pos_of_ne_nil (escapePoint_ne_nil p)
    rw [List.flatMap_cons, List.length_append] at hfuel
    have others := @scanChars_escape ps rest fuel (by omega)
    rw [List.flatMap_cons, List.append_assoc, scanChars, if_neg (escapePoint_head p _)]
    cases p with
    | char c =>
      rw [escapePoint, scanChar_escapeChar]
      simp only
      rw [others]
      rfl
    | surrogate high =>
      rw [escapePoint, scanChar_unicodeEscape]
      have follow := scanLow_points high.1 ps rest
      -- the reader joins a high surrogate with a low one that follows, and keeps any other alone
      by_cases pair : ∃ low more, ps = .surrogate low :: more ∧ isHigh high.1 = true ∧
        isLow low.1 = true
      · obtain ⟨low, more, rfl, hhigh, hlow⟩ := pair
        rw [List.flatMap_cons, List.length_append] at hfuel
        rw [List.flatMap_cons, List.append_assoc, escapePoint, scanUnicode_joined hhigh hlow]
        simp only
        rw [@scanChars_escape more rest fuel (by omega), joinPairs_surrogate]
        simp only [hhigh, hlow, Bool.and_self, if_true]
        rfl
      · have alone : isHigh high.1 = true →
            scanLow high.1 (ps.flatMap escapePoint ++ '"' :: rest) = none := by
          intro hhigh
          rw [follow]
          split
          next low more => rw [if_neg fun hlow => pair ⟨low, more, rfl, hhigh, hlow⟩]
          next => rfl
        have joined : joinPairs (.surrogate high :: ps) = .surrogate high :: joinPairs ps := by
          rw [joinPairs_surrogate]
          split
          next low more =>
            rw [if_neg]
            rw [Bool.and_eq_true]
            exact fun both => pair ⟨low, more, rfl, both.1, both.2⟩
          next => rfl
        rw [scanUnicode_alone high alone]
        simp only
        rw [others, joined]
        rfl
termination_by ps => ps.length

/-! ### Strings with more text -/

/-- A unit is read in the same way when more text follows. -/
theorem scanUnit_extend {input rest : List Char} {unit : ℕ} (h : scanUnit input = some (unit, rest))
    (more : List Char) : scanUnit (input ++ more) = some (unit, rest ++ more) := by
  unfold scanUnit at h
  split at h
  · split at h
    next ha hb hc hd =>
      cases h
      simp only [List.cons_append, scanUnit, ha, hb, hc, hd]
    · cases h
  · cases h

/-- A low surrogate is read in the same way when more text follows. -/
theorem scanLow_extend {high : ℕ} {input rest : List Char} {c : Char}
    (h : scanLow high input = some (c, rest)) (more : List Char) :
    scanLow high (input ++ more) = some (c, rest ++ more) := by
  unfold scanLow at h
  split at h
  · split at h
    next hunit =>
      split at h
      next hlow =>
        obtain ⟨hc, hrest⟩ := Prod.mk.inj (Option.some.inj h)
        simp only [List.cons_append, scanLow, scanUnit_extend hunit, if_pos hlow, hc, hrest]
      · cases h
    · cases h
  · cases h

/-- No rest of a pair comes up with more text when the string is closed in the input. -/
theorem scanLow_extend_none {fuel high : ℕ} {input rest : List Char} {ps : List Point}
    (closed : scanChars fuel input = some (ps, rest)) (h : scanLow high input = none)
    (more : List Char) : scanLow high (input ++ more) = none := by
  cases fuel with
  | zero => cases closed
  | succ fuel =>
    rw [scanChars] at closed
    cases input with
    | nil => simp [scanChar] at closed
    | cons c input =>
      by_cases hslash : c = '\\'
      · subst hslash
        rw [if_neg (by simp)] at closed
        cases input with
        | nil => simp [scanChar] at closed
        | cons e input =>
          by_cases hu : e = 'u'
          · subst hu
            cases hunit : scanUnit input with
            | none => simp [scanChar, scanUnicode, hunit] at closed
            | some found =>
              obtain ⟨unit, after⟩ := found
              have hlow : ¬ isLow unit = true := by
                intro hlow
                simp [scanLow, hunit, hlow] at h
              simp only [List.cons_append, scanLow, scanUnit_extend hunit, if_neg hlow]
          · exact scanLow_of_ne_u hu
      · exact scanLow_of_ne hslash

/-- An escape is read in the same way when what follows is no new low surrogate. -/
theorem scanUnicode_extend {input rest : List Char} {p : Point}
    (h : scanUnicode input = some (p, rest)) {more : List Char}
    (apart : ∀ high, scanLow high rest = none → scanLow high (rest ++ more) = none) :
    scanUnicode (input ++ more) = some (p, rest ++ more) := by
  unfold scanUnicode at h
  split at h
  next unit after hunit =>
    simp only [scanUnicode, scanUnit_extend hunit]
    by_cases hhigh : isHigh unit = true
    · simp only [if_pos hhigh] at h ⊢
      cases hlow : scanLow unit after with
      | some found =>
        obtain ⟨c, last⟩ := found
        simp only [hlow, Option.some.injEq, Prod.mk.injEq] at h
        obtain ⟨rfl, rfl⟩ := h
        rw [scanLow_extend hlow]
      | none =>
        simp only [hlow, Option.some.injEq, Prod.mk.injEq] at h
        obtain ⟨rfl, rfl⟩ := h
        rw [apart unit hlow]
    · simp only [if_neg hhigh, Option.some.injEq, Prod.mk.injEq] at h ⊢
      obtain ⟨rfl, rfl⟩ := h
      exact ⟨rfl, rfl⟩
  · cases h

/-- A code point is read in the same way when what follows is no new low surrogate. -/
theorem scanChar_extend {input rest : List Char} {p : Point} (h : scanChar input = some (p, rest))
    {more : List Char} (apart : ∀ high, scanLow high rest = none →
      scanLow high (rest ++ more) = none) :
    scanChar (input ++ more) = some (p, rest ++ more) := by
  cases input with
  | nil => cases h
  | cons first tail =>
    simp only [List.cons_append, scanChar] at h ⊢
    split_ifs at h ⊢ with hslash hcontrol
    · cases tail with
      | nil => cases h
      | cons e tail =>
        simp only [List.cons_append] at h ⊢
        split_ifs at h ⊢
        · exact scanUnicode_extend h apart
        · obtain ⟨_, hc, heq⟩ := Option.map_eq_some_iff.mp h
          cases heq
          rw [hc]
          rfl
    · cases h
      rfl

/-- A string that is closed in the input is read in the same way when more text follows. -/
theorem scanChars_extend {fuel fuel' : ℕ} (hfuel : fuel ≤ fuel') {input rest : List Char}
    {ps : List Point} (h : scanChars fuel input = some (ps, rest)) (more : List Char) :
    scanChars fuel' (input ++ more) = some (ps, rest ++ more) := by
  induction fuel generalizing fuel' input ps with
  | zero => cases h
  | succ fuel ih =>
    obtain ⟨fuel', rfl⟩ := Nat.exists_eq_succ_of_ne_zero (Nat.ne_zero_of_lt hfuel)
    rw [scanChars] at h ⊢
    cases input with
    | nil => simp [scanChar] at h
    | cons c input =>
      have hhead : (c :: input ++ more).head? = (c :: input).head? := rfl
      rw [hhead]
      by_cases hquote : (c :: input).head? = some '"'
      · rw [if_pos hquote] at h ⊢
        cases h
        rfl
      · rw [if_neg hquote] at h ⊢
        split at h
        · cases h
        next first tail hchar =>
          obtain ⟨⟨ps', rest'⟩, hps, heq⟩ := Option.map_eq_some_iff.mp h
          cases heq
          rw [scanChar_extend hchar fun _ none => scanLow_extend_none hps none more]
          simp only
          rw [ih (by omega) hps]
          rfl

section Text

variable {S : Type} [Text S]

/-- A string that is closed in the input is read in the same way when more text follows. -/
theorem scanText_extend {fuel fuel' : ℕ} (hfuel : fuel ≤ fuel') {input rest : List Char} {s : S}
    (h : scanText fuel input = some (s, rest)) (more : List Char) :
    scanText fuel' (input ++ more) = some (s, rest ++ more) := by
  unfold scanText at h ⊢
  split at h
  next ps after hps =>
    obtain ⟨found, hfound, heq⟩ := Option.map_eq_some_iff.mp h
    cases heq
    rw [scanChars_extend hfuel hps]
    simp only [hfound, Option.map_some]
  · cases h

/-- A written string reads back with its pairs joined. -/
theorem scanText_write (s : S) (rest : List Char) {fuel : ℕ}
    (hfuel : (writeString s).length < fuel + 1) :
    scanText fuel (writeString s ++ rest).tail = some (Text.joined s, rest) := by
  simp only [writeString, List.length_cons, List.length_append, List.length_nil] at hfuel
  simp only [writeString, List.cons_append, List.tail_cons, List.append_assoc, List.nil_append]
  rw [scanText, scanChars_escape (Text.points s) rest (by omega)]
  simp only [Text.ofPoints_joinPairs, Option.map_some]

end Text

/-! ## Numbers -/

/-- What may follow a number: nothing, or a character that cannot belong to it. -/
def Ends (rest : List Char) : Prop :=
  ∀ c ∈ rest.head?, c ∈ [',', ']', '\x7d', ' ', '\t', '\n', '\r']

/-- The input does not start with a digit. -/
def NoDigit (input : List Char) : Prop := ∀ c ∈ input.head?, c.isDigit = false

/-- What ends a number is no digit. -/
theorem Ends.noDigit {rest : List Char} (h : Ends rest) : NoDigit rest := by
  intro c hc
  have := h c hc
  simp only [List.mem_cons, List.not_mem_nil, or_false] at this
  rcases this with rfl | rfl | rfl | rfl | rfl | rfl | rfl <;> rfl

/-- What ends a number starts with few characters. -/
theorem Ends.head_ne {rest : List Char} (h : Ends rest) {c : Char}
    (hc : c ∉ [',', ']', '\x7d', ' ', '\t', '\n', '\r']) : rest.head? ≠ some c :=
  fun heq => hc (h c heq)

/-- The digits that are taken are digits. -/
theorem digits_takeWhile (input : List Char) : Digits (input.takeWhile Char.isDigit) :=
  fun _ hc => List.mem_takeWhile_imp hc

/-- Digits are taken up to what is none. -/
theorem takeWhile_digits {digits rest : List Char} (hd : Digits digits) (hr : NoDigit rest) :
    (digits ++ rest).takeWhile Char.isDigit = digits := by
  rw [List.takeWhile_append_of_pos hd]
  cases rest with
  | nil => simp
  | cons c rest => simp [hr c rfl]

/-- Digits are dropped up to what is none. -/
theorem dropWhile_digits {digits rest : List Char} (hd : Digits digits) (hr : NoDigit rest) :
    (digits ++ rest).dropWhile Char.isDigit = rest := by
  rw [List.dropWhile_append_of_pos hd]
  cases rest with
  | nil => simp
  | cons c rest => simp [hr c rfl]

/-- Digits start with a digit. -/
theorem Digits.head_ne {digits : List Char} (hd : Digits digits) {c : Char}
    (hc : c.isDigit = false) : digits.head? ≠ some c := by
  intro h
  have := hd c (List.mem_of_mem_head? h)
  rw [hc] at this
  cases this

/-- The whole part of a number reads back. -/
theorem scanWhole_append {n : Number} (h : n.Valid) {rest : List Char} (hr : NoDigit rest) :
    scanWhole (n.whole ++ rest) = (n.whole, rest) := by
  obtain ⟨c, cs, hwhole⟩ := List.exists_cons_of_ne_nil h.whole_ne_nil
  by_cases hzero : n.whole.head? = some '0'
  · simp [scanWhole, h.no_leading_zero hzero]
  · have hhead : (n.whole ++ rest).head? ≠ some '0' := by
      rw [hwhole] at hzero ⊢
      exact hzero
    rw [scanWhole, if_neg hhead, takeWhile_digits h.whole_digits hr,
      dropWhile_digits h.whole_digits hr]

/-- The characters of a number: a point with a fraction, when there is one. -/
def fractionText (fraction : List Char) : List Char :=
  if fraction = [] then [] else '.' :: fraction

/-- The fraction of a number reads back. -/
theorem scanFraction_append {fraction rest : List Char} (hd : Digits fraction) (hr : NoDigit rest)
    (hpoint : rest.head? ≠ some '.') :
    scanFraction (fractionText fraction ++ rest) = (fraction, rest) := by
  unfold fractionText
  split_ifs with h
  · subst h
    rw [List.nil_append, scanFraction, if_neg fun hc => hpoint hc.1]
  · have htake := takeWhile_digits hd hr
    have hdrop := dropWhile_digits hd hr
    simp [scanFraction, htake, hdrop, h]

/-- The sign of an exponent reads back. -/
theorem scanSign_append {sign digits : List Char} (h : sign = [] ∨ sign = ['+'] ∨ sign = ['-'])
    (hplus : digits.head? ≠ some '+') (hminus : digits.head? ≠ some '-') :
    scanSign (sign ++ digits) = (sign, digits) := by
  rcases h with rfl | rfl | rfl
  · rw [List.nil_append, scanSign, if_neg hplus, if_neg hminus]
  · simp [scanSign]
  · simp [scanSign]

/-- What follows does not change the first character. -/
theorem head?_append_of_ne_nil {cs rest : List Char} (h : cs ≠ []) :
    (cs ++ rest).head? = cs.head? := by
  cases cs with
  | nil => exact absurd rfl h
  | cons c cs => rfl

/-- The exponent of a number reads back. -/
theorem scanExponent_append {exponent rest : List Char} (h : ExponentText exponent)
    (hr : Ends rest) : scanExponent (exponent ++ rest) = (exponent, rest) := by
  rcases h with rfl | ⟨marker, sign, digits, rfl, hmarker, hsign, hne, hd⟩
  · cases rest with
    | nil => rfl
    | cons c rest =>
      have he : c ≠ 'e' := fun h => hr.head_ne (c := 'e') (by decide) (by simp [h])
      have hE : c ≠ 'E' := fun h => hr.head_ne (c := 'E') (by decide) (by simp [h])
      simp [scanExponent, he, hE]
  · have hhead : (digits ++ rest).head? = digits.head? := head?_append_of_ne_nil hne
    have hscan : scanSign (sign ++ (digits ++ rest)) = (sign, digits ++ rest) :=
      scanSign_append hsign (by rw [hhead]; exact hd.head_ne (by decide))
        (by rw [hhead]; exact hd.head_ne (by decide))
    have htake := takeWhile_digits hd hr.noDigit
    have hdrop := dropWhile_digits hd hr.noDigit
    rw [List.cons_append, List.append_assoc, scanExponent, hscan]
    simp [htake, hdrop, hmarker, hne]

/-- No digit starts an exponent or what ends a number. -/
theorem ExponentText.noDigit {exponent rest : List Char} (h : ExponentText exponent)
    (hr : Ends rest) : NoDigit (exponent ++ rest) := by
  rcases h with rfl | ⟨marker, sign, digits, rfl, rfl | rfl, -, -, -⟩
  · exact hr.noDigit
  · rintro c ⟨⟩
    rfl
  · rintro c ⟨⟩
    rfl

/-- No point starts an exponent or what ends a number. -/
theorem ExponentText.no_point {exponent rest : List Char} (h : ExponentText exponent)
    (hr : Ends rest) : (exponent ++ rest).head? ≠ some '.' := by
  rcases h with rfl | ⟨marker, sign, digits, rfl, rfl | rfl, -, -, -⟩
  · exact hr.head_ne (by decide)
  · simp
  · simp

/-- No digit starts a fraction or what follows it. -/
theorem fractionText_noDigit {fraction rest : List Char} (hr : NoDigit rest) :
    NoDigit (fractionText fraction ++ rest) := by
  unfold fractionText
  split_ifs
  · exact hr
  · rintro c ⟨⟩
    rfl

/-- A written number reads back, whatever ends it. -/
theorem scanNumber_text {n : Number} (h : n.Valid) {rest : List Char} (hr : Ends rest) :
    scanNumber (n.text ++ rest) = some (n, rest) := by
  have hexp := h.exponent_text.noDigit hr
  have hunsigned : ∀ negative, scanUnsigned negative
      (n.whole ++ (fractionText n.fraction ++ (n.exponent ++ rest)))
        = some ({ n with negative := negative }, rest) := by
    intro negative
    have hwhole := scanWhole_append h (@fractionText_noDigit n.fraction _ hexp)
    have hfraction := scanFraction_append h.fraction_digits hexp (h.exponent_text.no_point hr)
    have hexponent := scanExponent_append h.exponent_text hr
    simp only [scanUnsigned, hwhole, hfraction, hexponent, if_neg h.whole_ne_nil]
  obtain ⟨c, cs, hwhole⟩ := List.exists_cons_of_ne_nil h.whole_ne_nil
  have hminus : n.whole.head? ≠ some '-' := h.whole_digits.head_ne (by decide)
  have htext : n.text ++ rest = (if n.negative then ['-'] else []) ++
      (n.whole ++ (fractionText n.fraction ++ (n.exponent ++ rest))) := by
    simp [Number.text, fractionText]
  rw [htext]
  cases hneg : n.negative with
  | true =>
    simp only [scanNumber, if_true, List.cons_append, List.nil_append, List.head?_cons,
      List.tail_cons, hunsigned]
    rw [← hneg]
  | false =>
    simp only [Bool.false_eq_true, if_false, List.nil_append, scanNumber,
      head?_append_of_ne_nil h.whole_ne_nil, if_neg hminus, hunsigned]
    rw [← hneg]

/-- Only zero starts with the digit zero. -/
theorem toDigits_head (n : ℕ) : (Nat.toDigits 10 n).head? = some '0' → n = 0 := by
  induction n using Nat.strong_induction_on with
  | _ n ih =>
    intro h
    by_cases hlt : n < 10
    · rw [Nat.toDigits_of_lt_base hlt] at h
      have hall : ∀ d < 10, [Nat.digitChar d].head? = some '0' → d = 0 := by decide
      exact hall n hlt h
    · rw [Nat.toDigits_of_base_le (by decide) (not_lt.mp hlt),
        head?_append_of_ne_nil Nat.toDigits_ne_nil] at h
      have := ih (n / 10) (by omega) h
      omega

/-- The text of an integer is a number. -/
theorem Number.ofInt_valid (n : ℤ) : (Number.ofInt n).Valid where
  whole_ne_nil := Nat.toDigits_ne_nil
  whole_digits _ hc := Nat.isDigit_of_mem_toDigits (by decide) (by decide) hc
  no_leading_zero h := by
    have hzero := toDigits_head _ h
    simp only [ofInt, hzero]
    rfl
  fraction_digits := by simp [ofInt, Digits]
  exponent_text := Or.inl rfl

/-- The text of an integer reads back. -/
theorem Number.toInt_ofInt (n : ℤ) : (Number.ofInt n).toInt = n := by
  simp only [toInt, ofInt, Nat.ofDigitChars_toDigits (by decide : 1 < 10) (by decide : 10 ≤ 10)]
  split_ifs with h
  · have := of_decide_eq_true h
    omega
  · have hneg : ¬ n < 0 := fun hn => h (decide_eq_true hn)
    omega

/-! ### What the number reader accepts -/

/-- What is read as the whole part. -/
theorem scanWhole_sound (input : List Char) : input = (scanWhole input).1 ++ (scanWhole input).2 ∧
    Digits (scanWhole input).1 ∧
      ((scanWhole input).1.head? = some '0' → (scanWhole input).1 = ['0']) := by
  unfold scanWhole
  split_ifs with h
  · obtain ⟨rest, rfl⟩ : ∃ rest, input = '0' :: rest := by
      cases input with
      | nil => cases h
      | cons c rest => exact ⟨rest, by rw [Option.some.inj h]⟩
    exact ⟨rfl, by simp [Digits], fun _ => rfl⟩
  · refine ⟨(List.takeWhile_append_dropWhile).symm, digits_takeWhile _, ?_⟩
    intro hhead
    cases input with
    | nil => cases hhead
    | cons c rest =>
      by_cases hc : c.isDigit = true
      · rw [List.takeWhile_cons_of_pos hc] at hhead
        exact absurd hhead h
      · rw [List.takeWhile_cons_of_neg hc] at hhead
        cases hhead

/-- What is read as the fraction. -/
theorem scanFraction_sound (input : List Char) :
    input = fractionText (scanFraction input).1 ++ (scanFraction input).2 ∧
      Digits (scanFraction input).1 := by
  unfold scanFraction
  split_ifs with h
  · obtain ⟨hpoint, hne⟩ := h
    obtain ⟨rest, rfl⟩ : ∃ rest, input = '.' :: rest := by
      cases input with
      | nil => cases hpoint
      | cons c rest => exact ⟨rest, by rw [Option.some.inj hpoint]⟩
    rw [List.tail_cons] at hne ⊢
    refine ⟨?_, digits_takeWhile _⟩
    rw [fractionText, if_neg hne, List.cons_append, List.takeWhile_append_dropWhile]
  · exact ⟨by simp [fractionText], by simp [Digits]⟩

/-- What is read as the sign. -/
theorem scanSign_sound (input : List Char) : input = (scanSign input).1 ++ (scanSign input).2 ∧
    ((scanSign input).1 = [] ∨ (scanSign input).1 = ['+'] ∨ (scanSign input).1 = ['-']) := by
  unfold scanSign
  split_ifs with hplus hminus
  · cases input with
    | nil => cases hplus
    | cons c rest =>
      rw [List.head?_cons, Option.some.injEq] at hplus
      simp [hplus]
  · cases input with
    | nil => cases hminus
    | cons c rest =>
      rw [List.head?_cons, Option.some.injEq] at hminus
      simp [hminus]
  · simp

/-- What is read as the exponent. -/
theorem scanExponent_sound (input : List Char) :
    input = (scanExponent input).1 ++ (scanExponent input).2 ∧
      ExponentText (scanExponent input).1 := by
  cases input with
  | nil => exact ⟨rfl, Or.inl rfl⟩
  | cons marker rest =>
    obtain ⟨hrest, hsign⟩ := scanSign_sound rest
    rw [scanExponent]
    split_ifs with h
    · obtain ⟨hmarker, hne⟩ := h
      refine ⟨?_, Or.inr ⟨marker, _, _, rfl, hmarker, hsign, hne, digits_takeWhile _⟩⟩
      rw [List.cons_append, List.append_assoc, List.takeWhile_append_dropWhile, ← hrest]
    · exact ⟨rfl, Or.inl rfl⟩

/-- What the number reader accepts is a number followed by the rest of the input. -/
theorem scanNumber_sound {input rest : List Char} {n : Number}
    (h : scanNumber input = some (n, rest)) : n.Valid ∧ input = n.text ++ rest := by
  have hunsigned : ∀ {negative input}, scanUnsigned negative input = some (n, rest) →
      n.Valid ∧ n.negative = negative ∧
        input = n.whole ++ (fractionText n.fraction ++ (n.exponent ++ rest)) := by
    intro negative input h
    unfold scanUnsigned at h
    split_ifs at h with hne
    obtain ⟨rfl, rfl⟩ := Prod.mk.inj (Option.some.inj h)
    obtain ⟨hwhole, hdigits, hzero⟩ := scanWhole_sound input
    obtain ⟨hfraction, hfdigits⟩ := scanFraction_sound (scanWhole input).2
    obtain ⟨hexponent, htext⟩ := scanExponent_sound (scanFraction (scanWhole input).2).2
    refine ⟨⟨hne, hdigits, hzero, hfdigits, htext⟩, rfl, ?_⟩
    simp only
    rw [← hexponent, ← hfraction, ← hwhole]
  unfold scanNumber at h
  split_ifs at h with hminus
  · obtain ⟨tail, rfl⟩ : ∃ tail, input = '-' :: tail := by
      cases input with
      | nil => cases hminus
      | cons c tail => exact ⟨tail, by rw [Option.some.inj hminus]⟩
    obtain ⟨hvalid, hneg, htail⟩ := hunsigned h
    refine ⟨hvalid, ?_⟩
    rw [List.tail_cons] at htail
    rw [htail]
    simp [Number.text, fractionText, hneg]
  · obtain ⟨hvalid, hneg, hinput⟩ := hunsigned h
    refine ⟨hvalid, ?_⟩
    rw [hinput]
    simp [Number.text, fractionText, hneg]

end JsonText
