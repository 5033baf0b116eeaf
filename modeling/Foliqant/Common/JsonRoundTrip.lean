import Foliqant.Common.JsonLexemes

/-!
# The reader inverts the writer, and no proper prefix of an object reads

Two facts about `loads` and `write`. Reading what was written gives the value back with the surrogates
of its strings joined to pairs (`loads_write`), which changes no value whose strings have no such pair
(`joined_eq_self`). And a text that starts with the beginning of a written object but stops early is never a complete
value (`loads_prefix`): whatever the reader accepts before the end of its input, it accepts in the
same way when more text follows, so a prefix that reads would leave the rest of the object unread.
-/

namespace JsonText

variable {F S : Type} {floats : Floats F}

/-! ## Tokens -/

/-- A word is taken from its start. -/
theorem takeWord_append (word rest : List Char) : takeWord word (word ++ rest) = some rest := by
  induction word with
  | nil => rfl
  | cons c word ih => rw [List.cons_append, takeWord, if_pos rfl, ih]

/-- What is left after a word that was taken. -/
theorem takeWord_sound {word input rest : List Char} (h : takeWord word input = some rest) :
    input = word ++ rest := by
  induction word generalizing input with
  | nil =>
    cases h
    rfl
  | cons c word ih =>
    cases input with
    | nil => cases h
    | cons d input =>
      rw [takeWord] at h
      split_ifs at h with hc
      rw [hc, ih h, List.cons_append]

/-- A word is not taken where another character starts. -/
theorem takeWord_head {word input : List Char} {c : Char} (hword : word.head? = some c)
    (hinput : input.head? ≠ some c) : takeWord word input = none := by
  cases hrest : takeWord word input with
  | none => rfl
  | some rest =>
    refine absurd ?_ hinput
    rw [takeWord_sound hrest]
    cases word with
    | nil => cases hword
    | cons d word => exact hword

/-- A number starts with its sign or a digit. -/
theorem Number.Valid.text_head {n : Number} (h : n.Valid) (rest : List Char) :
    ∃ c, (n.text ++ rest).head? = some c ∧ (c = '-' ∨ c.isDigit = true) := by
  unfold Number.text
  cases n.negative with
  | true => exact ⟨'-', by simp, Or.inl rfl⟩
  | false =>
    obtain ⟨c, cs, hwhole⟩ := List.exists_cons_of_ne_nil h.whole_ne_nil
    exact ⟨c, by simp [hwhole], Or.inr (h.whole_digits c (by simp [hwhole]))⟩

/-- A number starts no word. -/
theorem Number.Valid.takeWord_eq_none {n : Number} (h : n.Valid) (word rest : List Char)
    {c : Char} (hword : word.head? = some c) (hminus : c ≠ '-')
    (hdigit : c.isDigit = false) : takeWord word (n.text ++ rest) = none := by
  obtain ⟨d, hd, hkind⟩ := h.text_head rest
  refine takeWord_head hword ?_
  rw [hd, Ne, Option.some.injEq]
  rintro rfl
  rcases hkind with rfl | hkind
  · exact hminus rfl
  · rw [hdigit] at hkind
    cases hkind

/-- A number that ends is one token. -/
theorem scanAtom_number {n : Number} (h : n.Valid) {rest : List Char} (hr : Ends rest) :
    scanAtom floats (n.text ++ rest) =
      (numberValue floats n : Option (Value F S)).map fun v => (v, rest) := by
  have hnull := h.takeWord_eq_none "null".toList rest rfl (by decide) (by decide)
  have htrue := h.takeWord_eq_none "true".toList rest rfl (by decide) (by decide)
  have hfalse := h.takeWord_eq_none "false".toList rest rfl (by decide) (by decide)
  simp only [scanAtom, hnull, htrue, hfalse, scanNumber_text h hr]
  rfl

/-- The word null. -/
theorem scanAtom_null (rest : List Char) :
    scanAtom floats ("null".toList ++ rest) = some ((.null : Value F S), rest) := by
  simp only [scanAtom, takeWord_append]

/-- The word true. -/
theorem scanAtom_true (rest : List Char) :
    scanAtom floats ("true".toList ++ rest) = some ((.bool true : Value F S), rest) := by
  have hnull : takeWord "null".toList ("true".toList ++ rest) = none :=
    takeWord_head (c := 'n') rfl (by simp)
  simp only [scanAtom, hnull, takeWord_append]

/-- The word false. -/
theorem scanAtom_false (rest : List Char) :
    scanAtom floats ("false".toList ++ rest) = some ((.bool false : Value F S), rest) := by
  have hnull : takeWord "null".toList ("false".toList ++ rest) = none :=
    takeWord_head (c := 'n') rfl (by simp)
  have htrue : takeWord "true".toList ("false".toList ++ rest) = none :=
    takeWord_head (c := 't') rfl (by simp)
  simp only [scanAtom, hnull, htrue, takeWord_append]

/-- A one-token value with something after it that ends a number is read in the same way when more
text follows. -/
theorem scanAtom_extend {input rest : List Char} {v : Value F S}
    (h : scanAtom floats input = some (v, rest)) (hne : rest ≠ []) (hr : Ends rest)
    (more : List Char) : scanAtom floats (input ++ more) = some (v, rest ++ more) := by
  unfold scanAtom at h
  split at h
  next hnull =>
    cases h
    rw [takeWord_sound hnull, List.append_assoc, scanAtom_null]
  · split at h
    next htrue =>
      cases h
      rw [takeWord_sound htrue, List.append_assoc, scanAtom_true]
    · split at h
      next hfalse =>
        cases h
        rw [takeWord_sound hfalse, List.append_assoc, scanAtom_false]
      · obtain ⟨⟨n, rest'⟩, hn, hvalue⟩ := Option.bind_eq_some_iff.mp h
        obtain ⟨found, hfound, heq⟩ := Option.map_eq_some_iff.mp hvalue
        cases heq
        obtain ⟨hvalid, rfl⟩ := scanNumber_sound hn
        have hends : Ends (rest ++ more) := by
          intro c hc
          rw [head?_append_of_ne_nil hne] at hc
          exact hr c hc
        rw [List.append_assoc, scanAtom_number hvalid hends, hfound]
        rfl

/-- Nothing is skipped before a token. -/
theorem skip_of_head {input : List Char} {c : Char} (h : input.head? = some c)
    (hc : isSpace c = false) : skip input = input := by
  cases input with
  | nil => cases h
  | cons d input =>
    cases h
    rw [skip, List.dropWhile_cons_of_neg (by simp [hc])]

/-- Whitespace before a token is skipped in the same way when more text follows. -/
theorem skip_extend {input : List Char} (h : skip input ≠ []) (more : List Char) :
    skip (input ++ more) = skip input ++ more := by
  induction input with
  | nil => exact absurd rfl h
  | cons c input ih =>
    unfold skip at *
    by_cases hc : isSpace c = true
    · rw [List.dropWhile_cons_of_pos hc] at h ⊢
      rw [List.cons_append, List.dropWhile_cons_of_pos hc, ih h]
    · rw [List.dropWhile_cons_of_neg hc, List.cons_append, List.dropWhile_cons_of_neg hc]

/-! ## Reading with more text -/

/-- A value whose text shows where it ends. -/
def Value.Closed : Value F S → Prop
  | .str _ | .arr _ | .obj _ => True
  | _ => False

/-- The text after a value does not continue it. -/
def Bounded (v : Value F S) (rest : List Char) : Prop := v.Closed ∨ (rest ≠ [] ∧ Ends rest)

/-- After skipping whitespace a separator follows, so the text does not continue the value. -/
theorem bounded_of_skip {v : Value F S} {rest : List Char} {c : Char}
    (h : (skip rest).head? = some c) (hc : c ∈ [',', ']', '\x7d']) : Bounded v rest := by
  refine Or.inr ?_
  cases rest with
  | nil => cases h
  | cons d rest =>
    refine ⟨List.cons_ne_nil _ _, ?_⟩
    rintro e ⟨⟩
    by_cases hd : isSpace d = true
    · simp only [isSpace, Bool.or_eq_true, beq_iff_eq] at hd
      rcases hd with ((rfl | rfl) | rfl) | rfl <;> decide
    · rw [skip, List.dropWhile_cons_of_neg hd] at h
      cases h
      simp only [List.mem_cons, List.not_mem_nil, or_false] at hc
      rcases hc with rfl | rfl | rfl <;> decide

/-- What starts with a character is not empty. -/
theorem ne_nil_of_head {input : List Char} {c : Char} (h : input.head? = some c) :
    input ≠ [] := by
  rintro rfl
  cases h

/-- More text keeps the first character. -/
theorem head?_extend {input : List Char} {c : Char} (h : input.head? = some c)
    (more : List Char) : (input ++ more).head? = some c := by
  rw [head?_append_of_ne_nil (ne_nil_of_head h), h]

/-- More text starts with no other character. -/
theorem head?_ne_extend {input : List Char} {c : Char} (hne : input ≠ [])
    (h : input.head? ≠ some c) (more : List Char) : (input ++ more).head? ≠ some c := by
  rwa [head?_append_of_ne_nil hne]

/-- More text comes after the rest. -/
theorem tail_extend {input : List Char} (hne : input ≠ []) (more : List Char) :
    (input ++ more).tail = input.tail ++ more := by
  cases input with
  | nil => exact absurd rfl hne
  | cons c input => rfl

/-- Where something was read there was something to read. -/
theorem skip_ne_nil_of_scan {α : Type} {scan : List Char → Option α} (hnil : scan [] = none)
    {input : List Char} {x : α} (h : scan (skip input) = some x) : skip input ≠ [] := by
  intro heq
  rw [heq, hnil] at h
  cases h

/-- A one-token value ends only where something else begins. -/
theorem scanAtom_not_closed {input rest : List Char} {v : Value F S}
    (h : scanAtom floats input = some (v, rest)) : ¬ v.Closed := by
  unfold scanAtom at h
  split at h
  · cases h
    exact id
  · split at h
    · cases h
      exact id
    · split at h
      · cases h
        exact id
      · obtain ⟨⟨n, rest'⟩, -, hvalue⟩ := Option.bind_eq_some_iff.mp h
        obtain ⟨found, hfound, heq⟩ := Option.map_eq_some_iff.mp hvalue
        cases heq
        unfold numberValue at hfound
        split_ifs at hfound <;> cases hfound <;> exact id

section Extend

variable [Text S] [DecidableEq S]

/-- No value is read from nothing. -/
theorem scanValue_nil (fuel : ℕ) :
    (scanValue floats fuel [] : Option (Value F S × List Char)) = none := by
  cases fuel <;> rfl

/-- No list is read from nothing. -/
theorem scanItems_nil (fuel : ℕ) (first : Bool) :
    (scanItems floats fuel first [] : Option (List (Value F S) × List Char)) = none := by
  cases fuel with
  | zero => rfl
  | succ fuel => simp [scanItems, scanValue_nil]

/-- No object is read from nothing. -/
theorem scanMembers_nil (fuel : ℕ) (first : Bool) :
    (scanMembers floats fuel first [] : Option (List (S × Value F S) × List Char)) = none := by
  cases fuel with
  | zero => rfl
  | succ fuel => simp [scanMembers]

mutual

/-- A value that is complete in the input is read in the same way when more text follows. -/
theorem scanValue_extend {fuel fuel' : ℕ} (hfuel : fuel ≤ fuel') {input rest : List Char}
    {v : Value F S} (h : scanValue floats fuel input = some (v, rest)) (hv : Bounded v rest)
    (more : List Char) : scanValue floats fuel' (input ++ more) = some (v, rest ++ more) := by
  match fuel, fuel', hfuel with
  | 0, _, _ => cases h
  | fuel + 1, fuel' + 1, hfuel =>
    have hne : input ≠ [] := by
      rintro rfl
      rw [scanValue_nil] at h
      cases h
    have hle : fuel ≤ fuel' := Nat.le_of_succ_le_succ hfuel
    rw [scanValue] at h ⊢
    rw [head?_append_of_ne_nil hne, tail_extend hne]
    split_ifs at h ⊢
    · obtain ⟨⟨text, rest'⟩, htext, heq⟩ := Option.map_eq_some_iff.mp h
      cases heq
      rw [scanText_extend hle htext more]
      rfl
    · obtain ⟨⟨items, rest'⟩, hitems, heq⟩ := Option.map_eq_some_iff.mp h
      cases heq
      have hskip := skip_ne_nil_of_scan (scanItems_nil fuel true) hitems
      rw [skip_extend hskip, scanItems_extend hle hitems more]
      rfl
    · obtain ⟨⟨members, rest'⟩, hmembers, heq⟩ := Option.map_eq_some_iff.mp h
      cases heq
      have hskip := skip_ne_nil_of_scan (scanMembers_nil fuel true) hmembers
      rw [skip_extend hskip, scanMembers_extend hle hmembers more]
      rfl
    · obtain ⟨hrest, hends⟩ := hv.resolve_left (scanAtom_not_closed h)
      exact scanAtom_extend h hrest hends more

/-- A list that is complete in the input is read in the same way when more text follows. -/
theorem scanItems_extend {fuel fuel' : ℕ} (hfuel : fuel ≤ fuel') {first : Bool}
    {input rest : List Char} {items : List (Value F S)}
    (h : scanItems floats fuel first input = some (items, rest)) (more : List Char) :
    scanItems floats fuel' first (input ++ more) = some (items, rest ++ more) := by
  match fuel, fuel', hfuel with
  | 0, _, _ => cases h
  | fuel + 1, fuel' + 1, hfuel =>
    have hne : input ≠ [] := by
      rintro rfl
      rw [scanItems_nil] at h
      cases h
    have hle : fuel ≤ fuel' := Nat.le_of_succ_le_succ hfuel
    rw [scanItems] at h ⊢
    rw [head?_append_of_ne_nil hne, tail_extend hne]
    split_ifs at h ⊢
    · cases h
      rfl
    · split at h
      · cases h
      next item after hitem =>
        split_ifs at h with hclose hcomma
        · cases h
          have hskip := skip_extend (ne_nil_of_head hclose) more
          rw [scanValue_extend hle hitem (bounded_of_skip hclose (by simp)) more]
          simp only [hskip, if_pos (head?_extend hclose more),
            tail_extend (ne_nil_of_head hclose)]
        · obtain ⟨⟨items', rest'⟩, hitems, heq⟩ := Option.map_eq_some_iff.mp h
          cases heq
          have hskip := skip_extend (ne_nil_of_head hcomma) more
          have hnext := skip_ne_nil_of_scan (scanItems_nil fuel false) hitems
          rw [scanValue_extend hle hitem (bounded_of_skip hcomma (by simp)) more]
          simp only [hskip, if_neg (head?_ne_extend (ne_nil_of_head hcomma) hclose more),
            if_pos (head?_extend hcomma more), tail_extend (ne_nil_of_head hcomma),
            skip_extend hnext]
          rw [scanItems_extend hle hitems more]
          rfl

/-- An object that is complete in the input is read in the same way when more text follows. -/
theorem scanMembers_extend {fuel fuel' : ℕ} (hfuel : fuel ≤ fuel') {first : Bool}
    {input rest : List Char} {members : List (S × Value F S)}
    (h : scanMembers floats fuel first input = some (members, rest)) (more : List Char) :
    scanMembers floats fuel' first (input ++ more) = some (members, rest ++ more) := by
  match fuel, fuel', hfuel with
  | 0, _, _ => cases h
  | fuel + 1, fuel' + 1, hfuel =>
    have hne : input ≠ [] := by
      rintro rfl
      rw [scanMembers_nil] at h
      cases h
    have hle : fuel ≤ fuel' := Nat.le_of_succ_le_succ hfuel
    rw [scanMembers] at h ⊢
    rw [head?_append_of_ne_nil hne, tail_extend hne]
    split_ifs at h ⊢
    · cases h
      rfl
    · split at h
      · cases h
      next key afterKey hkey =>
        rw [scanText_extend hle hkey more]
        simp only
        split_ifs at h with hcolon
        have hskipKey := skip_extend (ne_nil_of_head hcolon) more
        rw [hskipKey, if_pos (head?_extend hcolon more), tail_extend (ne_nil_of_head hcolon)]
        split at h
        · cases h
        next value after hvalue =>
          have hstart := skip_ne_nil_of_scan (scanValue_nil fuel) hvalue
          rw [skip_extend hstart]
          split_ifs at h with hclose hcomma
          · cases h
            have hskip := skip_extend (ne_nil_of_head hclose) more
            rw [scanValue_extend hle hvalue (bounded_of_skip hclose (by simp)) more]
            simp only [hskip, if_pos (head?_extend hclose more),
              tail_extend (ne_nil_of_head hclose)]
          · obtain ⟨⟨members', rest'⟩, hmembers, heq⟩ := Option.map_eq_some_iff.mp h
            cases heq
            have hskip := skip_extend (ne_nil_of_head hcomma) more
            have hnext := skip_ne_nil_of_scan (scanMembers_nil fuel false) hmembers
            rw [scanValue_extend hle hvalue (bounded_of_skip hcomma (by simp)) more]
            simp only [hskip, if_neg (head?_ne_extend (ne_nil_of_head hcomma) hclose more),
              if_pos (head?_extend hcomma more), tail_extend (ne_nil_of_head hcomma),
              skip_extend hnext]
            rw [scanMembers_extend hle hmembers more]
            rfl

end

end Extend

/-! ## Reading what was written -/

mutual

/-- The keys of every object in the value differ. -/
def Value.Distinct : Value F S → Prop
  | .arr items => ItemsDistinct items
  | .obj members => (members.map Prod.fst).Nodup ∧ MembersDistinct members
  | _ => True

/-- The keys of every object in the items differ. -/
def ItemsDistinct : List (Value F S) → Prop
  | [] => True
  | item :: rest => item.Distinct ∧ ItemsDistinct rest

/-- The keys of every object in the members' values differ. -/
def MembersDistinct : List (S × Value F S) → Prop
  | [] => True
  | (_, value) :: rest => value.Distinct ∧ MembersDistinct rest

end

section Members

variable [DecidableEq S]

/-- A new key comes last. -/
theorem setKey_of_notMem {key : S} {value : Value F S} {members : List (S × Value F S)}
    (h : key ∉ members.map Prod.fst) : setKey key value members = members ++ [(key, value)] := by
  induction members with
  | nil => rfl
  | cons member members ih =>
    obtain ⟨k, v⟩ := member
    simp only [List.map_cons, List.mem_cons, not_or] at h
    rw [setKey, if_neg (Ne.symm h.1), ih h.2, List.cons_append]

/-- Members with distinct keys are the object they make. -/
theorem dict_eq_self {members : List (S × Value F S)} (h : (members.map Prod.fst).Nodup) :
    dict members = members := by
  have hfold : ∀ (done rest : List (S × Value F S)), ((done ++ rest).map Prod.fst).Nodup →
      rest.foldl (fun object (member : S × Value F S) => setKey member.1 member.2 object) done
        = done ++ rest := by
    intro done rest
    induction rest generalizing done with
    | nil => simp
    | cons member rest ih =>
      intro hnodup
      have hfresh : member.1 ∉ done.map Prod.fst := by
        rw [List.map_append, List.map_cons, List.nodup_append] at hnodup
        exact fun hmem => hnodup.2.2 _ hmem _ List.mem_cons_self rfl
      rw [List.foldl_cons, setKey_of_notMem hfresh, ih _ (by simpa using hnodup)]
      simp
  exact hfold [] members h

section All

variable {int : ℤ → Bool} {float : F → Bool} {text : S → Bool}

/-- Setting a key keeps what holds of all members. -/
theorem membersAll_setKey {key : S} {value : Value F S} {members : List (S × Value F S)}
    (hkey : text key = true) (hvalue : value.all int float text = true)
    (h : membersAll int float text members = true) :
    membersAll int float text (setKey key value members) = true := by
  induction members with
  | nil => simp [setKey, membersAll, hkey, hvalue]
  | cons member rest ih =>
    obtain ⟨k, v⟩ := member
    simp only [membersAll, Bool.and_eq_true] at h
    rw [setKey]
    split_ifs
    · simp [membersAll, h, hvalue]
    · simp [membersAll, h, ih h.2]

/-- An object has only members that it is made from. -/
theorem membersAll_dict {members : List (S × Value F S)}
    (h : membersAll int float text members = true) :
    membersAll int float text (dict members) = true := by
  have fold : ∀ done rest : List (S × Value F S), membersAll int float text done = true →
      membersAll int float text rest = true → membersAll int float text
        (rest.foldl (fun object (member : S × Value F S) => setKey member.1 member.2 object) done)
          = true := by
    intro done rest hdone hrest
    induction rest generalizing done with
    | nil => exact hdone
    | cons member rest ih =>
      obtain ⟨key, value⟩ := member
      simp only [membersAll, Bool.and_eq_true] at hrest
      exact ih _ (membersAll_setKey hrest.1.1 hrest.1.2 hdone) hrest.2
  exact fold [] members rfl h

end All

end Members

variable [Text S]

/-- The first character of a written value tells it from whitespace and from every closing
bracket. -/
theorem write_head (floats : Floats F) (v : Value F S) (rest : List Char) :
    ∃ c, (write floats v ++ rest).head? = some c ∧ isSpace c = false ∧ c ≠ ']' := by
  have hnumber : ∀ {n : Number}, n.Valid → ∃ c, (n.text ++ rest).head? = some c ∧
      isSpace c = false ∧ c ≠ ']' := by
    intro n hn
    obtain ⟨c, hc, hkind⟩ := hn.text_head rest
    refine ⟨c, hc, ?_, ?_⟩
    · rcases hkind with rfl | hkind
      · rfl
      · simp only [isSpace, Bool.or_eq_false_iff, beq_eq_false_iff_ne]
        refine ⟨⟨⟨?_, ?_⟩, ?_⟩, ?_⟩ <;> rintro rfl <;> cases hkind
    · rcases hkind with rfl | hkind
      · decide
      · rintro rfl
        cases hkind
  cases v with
  | null => exact ⟨'n', rfl, rfl, by decide⟩
  | bool b =>
    cases b with
    | true => exact ⟨'t', rfl, rfl, by decide⟩
    | false => exact ⟨'f', rfl, rfl, by decide⟩
  | int n => exact hnumber (Number.ofInt_valid n)
  | float x => exact hnumber (floats.valid x)
  | str s => exact ⟨'"', rfl, rfl, by decide⟩
  | arr items => exact ⟨'[', rfl, rfl, by decide⟩
  | obj members => exact ⟨'\x7b', rfl, rfl, by decide⟩

/-- Nothing is skipped before a written value. -/
theorem skip_write (floats : Floats F) (v : Value F S) (rest : List Char) :
    skip (write floats v ++ rest) = write floats v ++ rest := by
  obtain ⟨c, hc, hspace, _⟩ := write_head floats v rest
  exact skip_of_head hc hspace

/-- What ends a number. -/
theorem ends_of_head {rest : List Char} {c : Char} (h : rest.head? = some c)
    (hc : c ∈ [',', ']', '\x7d', ' ', '\t', '\n', '\r']) : Ends rest := by
  intro d hd
  rw [h] at hd
  cases hd
  exact hc

/-- Nothing is skipped before a character that is no space. -/
theorem skip_cons {c : Char} (hc : isSpace c = false) (rest : List Char) :
    skip (c :: rest) = c :: rest :=
  skip_of_head rfl hc

section RoundTrip

variable [DecidableEq S]

/-! ### What reading makes of a value -/

mutual

/-- The value with the surrogates of its strings joined to pairs; of members whose keys become the same
the last one stays. -/
def Value.joined : Value F S → Value F S
  | .str s => .str (Text.joined s)
  | .arr items => .arr (joinedItems items)
  | .obj members => .obj (dict (joinedMembers members))
  | value => value

/-- The items as they read back. -/
def joinedItems : List (Value F S) → List (Value F S)
  | [] => []
  | item :: rest => item.joined :: joinedItems rest

/-- The members as they read back, before equal keys are one. -/
def joinedMembers : List (S × Value F S) → List (S × Value F S)
  | [] => []
  | (key, value) :: rest => (Text.joined key, value.joined) :: joinedMembers rest

end

/-- Joining surrogates leaves every string and key inside as it is. -/
def Value.isJoined (value : Value F S) : Bool :=
  value.all (fun _ => true) (fun _ => true) fun s => Text.joined s = s

/-- Joining surrogates leaves the items as they are. -/
abbrev itemsJoined (items : List (Value F S)) : Bool :=
  itemsAll (fun _ => true) (fun _ => true) (fun s => Text.joined s = s) items

/-- Joining surrogates leaves the members as they are. -/
abbrev membersJoined (members : List (S × Value F S)) : Bool :=
  membersAll (fun _ => true) (fun _ => true) (fun s => Text.joined s = s) members

mutual

/-- Reading a value without surrogates to join gives the value. -/
theorem joined_eq_self : ∀ (v : Value F S), v.Distinct → v.isJoined = true → v.joined = v
  | .null, _, _ | .bool _, _, _ | .int _, _, _ | .float _, _, _ => rfl
  | .str _, _, h => congrArg Value.str (of_decide_eq_true h)
  | .arr items, hd, h => congrArg Value.arr (joinedItems_eq_self items hd h)
  | .obj members, hd, h => by
    rw [Value.joined, joinedMembers_eq_self members hd.2 h, dict_eq_self hd.1]

/-- Reading items without surrogates to join gives the items. -/
theorem joinedItems_eq_self : ∀ (items : List (Value F S)), ItemsDistinct items →
    itemsJoined items = true → joinedItems items = items
  | [], _, _ => rfl
  | item :: rest, hd, h => by
    obtain ⟨first, others⟩ := (Bool.and_eq_true _ _).mp h
    rw [joinedItems, joined_eq_self item hd.1 first, joinedItems_eq_self rest hd.2 others]

/-- Reading members without surrogates to join gives the members. -/
theorem joinedMembers_eq_self : ∀ (members : List (S × Value F S)), MembersDistinct members →
    membersJoined members = true → joinedMembers members = members
  | [], _, _ => rfl
  | (key, value) :: rest, hd, h => by
    obtain ⟨entry, others⟩ := (Bool.and_eq_true _ _).mp h
    obtain ⟨name, first⟩ := (Bool.and_eq_true _ _).mp entry
    rw [joinedMembers, joined_eq_self value hd.1 first, joinedMembers_eq_self rest hd.2 others,
      of_decide_eq_true name]

end


/-- The test that `isJoined` makes of every string. -/
theorem Text.decide_joined (s : S) : decide (Text.joined (Text.joined s) = Text.joined s) = true :=
  decide_eq_true (Text.joined_joined s)

mutual

/-- Reading leaves nothing to join. -/
theorem isJoined_joined : ∀ (v : Value F S), v.joined.isJoined = true
  | .null | .bool _ | .int _ | .float _ => rfl
  | .str s => Text.decide_joined s
  | .arr items => itemsAll_joined items
  | .obj members => membersAll_dict (membersAll_joined members)

/-- Reading leaves nothing to join in the items. -/
theorem itemsAll_joined : ∀ (items : List (Value F S)), itemsJoined (joinedItems items) = true
  | [] => rfl
  | item :: rest => by
    rw [joinedItems]
    exact (Bool.and_eq_true _ _).mpr ⟨isJoined_joined item, itemsAll_joined rest⟩

/-- Reading leaves nothing to join in the members. -/
theorem membersAll_joined : ∀ (members : List (S × Value F S)),
    membersJoined (joinedMembers members) = true
  | [] => rfl
  | (key, value) :: rest => by
    rw [joinedMembers]
    have entry := (Bool.and_eq_true _ _).mpr ⟨Text.decide_joined key, isJoined_joined value⟩
    exact (Bool.and_eq_true _ _).mpr ⟨entry, membersAll_joined rest⟩

end

/-- A value that does not start with a quote or a bracket is one token. -/
theorem scanValue_atom {fuel : ℕ} {input : List Char} {c : Char} (h : input.head? = some c)
    (hquote : c ≠ '"') (hbracket : c ≠ '[') (hbrace : c ≠ '\x7b') :
    (scanValue floats (fuel + 1) input : Option (Value F S × List Char)) = scanAtom floats input := by
  rw [scanValue, h, if_neg (by simpa using hquote), if_neg (by simpa using hbracket),
    if_neg (by simpa using hbrace)]

/-- A written number is read back. -/
theorem scanValue_number {fuel : ℕ} {n : Number} (hn : n.Valid) {rest : List Char}
    (hr : Ends rest) : (scanValue floats (fuel + 1) (n.text ++ rest) : Option
      (Value F S × List Char)) =
      (numberValue floats n).map fun v => (v, rest) := by
  obtain ⟨c, hc, hkind⟩ := hn.text_head rest
  have hne : ∀ d : Char, d ≠ '-' → d.isDigit = false → c ≠ d := by
    rintro d hminus hdigit rfl
    rcases hkind with rfl | hkind
    · exact hminus rfl
    · rw [hdigit] at hkind
      cases hkind
  rw [scanValue_atom hc (hne _ (by decide) rfl) (hne _ (by decide) rfl) (hne _ (by decide) rfl),
    scanAtom_number hn hr]

mutual

/-- A written value reads back, whatever ends it. -/
theorem scanValue_write : ∀ (v : Value F S) {fuel : ℕ} {rest : List Char},
    v.writableNumbers floats = true →
    Ends rest → (write floats v).length < fuel →
    scanValue floats fuel (write floats v ++ rest) = some (v.joined, rest)
  | v, 0, _, _, _, hfuel => absurd hfuel (Nat.not_lt_zero _)
  | .null, fuel + 1, rest, _, _, _ => by
    rw [write, scanValue_atom (c := 'n') rfl (by decide) (by decide) (by decide), scanAtom_null]
    rfl
  | .bool true, fuel + 1, rest, _, _, _ => by
    rw [write, scanValue_atom (c := 't') rfl (by decide) (by decide) (by decide), scanAtom_true]
    rfl
  | .bool false, fuel + 1, rest, _, _, _ => by
    rw [write, scanValue_atom (c := 'f') rfl (by decide) (by decide) (by decide), scanAtom_false]
    rfl
  | .int n, fuel + 1, rest, hw, hr, _ => by
    rw [write, scanValue_number (Number.ofInt_valid n) hr]
    have hint : (Number.ofInt n).isInt = true := rfl
    rw [numberValue, if_pos hint, if_pos (of_decide_eq_true hw), Number.toInt_ofInt]
    rfl
  | .float x, fuel + 1, rest, hw, hr, _ => by
    rw [write, scanValue_number (floats.valid x) hr]
    rw [numberValue, floats.not_int, if_neg Bool.false_ne_true, floats.ofNumber_number x hw]
    rfl
  | .str s, fuel + 1, rest, _, _, hfuel => by
    rw [write] at hfuel ⊢
    have hhead : (writeString s ++ rest).head? = some '"' := rfl
    rw [scanValue, if_pos hhead, scanText_write s rest hfuel]
    rfl
  | .arr items, fuel + 1, rest, hw, _, hfuel => by
    rw [write, List.length_cons] at hfuel
    have hquote : ('[' :: writeItems floats true items ++ rest).head? ≠ some '"' := by simp
    have hbracket : ('[' :: writeItems floats true items ++ rest).head? = some '[' := rfl
    rw [write, scanValue, if_neg hquote, if_pos hbracket, List.cons_append, List.tail_cons]
    cases items with
    | nil =>
      obtain ⟨fuel, rfl⟩ := Nat.exists_eq_succ_of_ne_zero
        (Nat.ne_zero_of_lt (Nat.lt_of_succ_lt_succ hfuel))
      simp [writeItems, skip_cons, scanItems, isSpace, Value.joined, joinedItems]
    | cons item more =>
      have hskip : skip (writeItems floats true (item :: more) ++ rest)
          = writeItems floats true (item :: more) ++ rest := by
        simp only [writeItems, if_true, List.nil_append, List.append_assoc]
        exact skip_write floats item _
      rw [hskip, scanItems_write (item :: more) (List.cons_ne_nil _ _) hw
        (Nat.lt_of_succ_lt_succ hfuel)]
      rfl
  | .obj members, fuel + 1, rest, hw, _, hfuel => by
    rw [write, List.length_cons] at hfuel
    have hquote : ('\x7b' :: writeMembers floats true members ++ rest).head? ≠ some '"' := by simp
    have hbracket : ('\x7b' :: writeMembers floats true members ++ rest).head? ≠ some '[' := by simp
    have hbrace : ('\x7b' :: writeMembers floats true members ++ rest).head? = some '\x7b' := rfl
    rw [write, scanValue, if_neg hquote, if_neg hbracket, if_pos hbrace, List.cons_append,
      List.tail_cons]
    cases members with
    | nil =>
      obtain ⟨fuel, rfl⟩ := Nat.exists_eq_succ_of_ne_zero
        (Nat.ne_zero_of_lt (Nat.lt_of_succ_lt_succ hfuel))
      simp [writeMembers, skip_cons, scanMembers, isSpace, dict, Value.joined, joinedMembers]
    | cons member more =>
      have hskip : skip (writeMembers floats true (member :: more) ++ rest)
          = writeMembers floats true (member :: more) ++ rest := by
        simp only [writeMembers, if_true, List.nil_append, writeString, List.cons_append]
        exact skip_cons rfl _
      rw [hskip, scanMembers_write (member :: more) (List.cons_ne_nil _ _) hw
        (Nat.lt_of_succ_lt_succ hfuel)]
      rfl

/-- The items after an opening bracket or a comma read back. -/
theorem scanItems_write : ∀ (items : List (Value F S)) {fuel : ℕ} {first : Bool} {rest : List Char},
    items ≠ [] → (Value.arr items).writableNumbers floats = true →
      (writeItems floats true items).length < fuel →
      scanItems floats fuel first (writeItems floats true items ++ rest) =
        some (joinedItems items, rest)
  | [], _, _, _, hne, _, _ => absurd rfl hne
  | _, 0, _, _, _, _, hfuel => absurd hfuel (Nat.not_lt_zero _)
  | item :: more, fuel + 1, first, rest, _, hw, hfuel => by
    obtain ⟨hfirst, hothers⟩ := (Bool.and_eq_true _ _).mp hw
    simp only [writeItems, if_true, List.nil_append, List.length_append] at hfuel
    have hitem : (write floats item).length < fuel := by
      have : 0 < (writeItems floats false more).length := by
        cases more <;> simp [writeItems]
      omega
    obtain ⟨c, hc, _, hclose⟩ := write_head floats item
      (writeItems floats false more ++ rest)
    have hends : Ends (writeItems floats false more ++ rest) := by
      cases more with
      | nil => exact ends_of_head rfl (by simp)
      | cons next more => exact ends_of_head rfl (by simp)
    have hguard : ¬ (first = true ∧
        (write floats item ++ (writeItems floats false more ++ rest)).head? = some ']') := by
      rw [hc]
      simp [hclose]
    rw [writeItems, if_pos rfl, List.nil_append, List.append_assoc, scanItems, if_neg hguard,
      scanValue_write item hfirst hends hitem]
    cases more with
    | nil => simp [writeItems, skip_cons, isSpace, joinedItems]
    | cons next more =>
      have hcomma : writeItems floats false (next :: more) ++ rest
          = ',' :: (writeItems floats true (next :: more) ++ rest) := by
        simp [writeItems]
      have hlength : (writeItems floats true (next :: more)).length < fuel := by
        simp only [writeItems, if_true, Bool.false_eq_true, if_false, List.length_append,
          List.length_cons, List.length_nil] at hfuel ⊢
        omega
      have hskip : skip (writeItems floats true (next :: more) ++ rest)
          = writeItems floats true (next :: more) ++ rest := by
        simp only [writeItems, if_true, List.nil_append, List.append_assoc]
        exact skip_write floats next _
      simp only [hcomma, skip_cons (show isSpace ',' = false from rfl), List.head?_cons,
        List.tail_cons, hskip,
        scanItems_write (next :: more) (List.cons_ne_nil _ _) hothers hlength]
      rfl

/-- The members after an opening brace or a comma read back. -/
theorem scanMembers_write : ∀ (members : List (S × Value F S)) {fuel : ℕ} {first : Bool}
    {rest : List Char}, members ≠ [] → (Value.obj members).writableNumbers floats = true →
      (writeMembers floats true members).length < fuel →
        scanMembers floats fuel first (writeMembers floats true members ++ rest)
          = some (joinedMembers members, rest)
  | [], _, _, _, hne, _, _ => absurd rfl hne
  | _, 0, _, _, _, _, hfuel => absurd hfuel (Nat.not_lt_zero _)
  | (key, value) :: more, fuel + 1, first, rest, _, hw, hfuel => by
    obtain ⟨hentry, hothers⟩ := (Bool.and_eq_true _ _).mp hw
    obtain ⟨-, hfirst⟩ := (Bool.and_eq_true _ _).mp hentry
    simp only [writeMembers, if_true, List.nil_append, List.length_append, List.length_cons]
      at hfuel
    have hvalue : (write floats value).length < fuel := by omega
    have hkey : (writeString key).length < fuel + 1 := by omega
    have hends : Ends (writeMembers floats false more ++ rest) := by
      cases more with
      | nil => exact ends_of_head rfl (by simp)
      | cons next more => exact ends_of_head rfl (by simp)
    have hquote : (writeString key ++ ':' :: (write floats value ++
        (writeMembers floats false more ++ rest))).head? = some '"' := rfl
    have hguard : ¬ (first = true ∧ (writeString key ++ ':' :: (write floats value ++
        (writeMembers floats false more ++ rest))).head? = some '\x7d') := by
      rw [hquote]
      simp
    rw [writeMembers, if_pos rfl, List.nil_append, List.append_assoc, List.cons_append,
      List.append_assoc, scanMembers, if_neg hguard, if_pos hquote,
      scanText_write key _ hkey]
    simp only [skip_cons (show isSpace ':' = false from rfl), List.head?_cons, if_true,
      List.tail_cons, skip_write, scanValue_write value hfirst hends hvalue]
    cases more with
    | nil => simp [writeMembers, skip_cons, isSpace, joinedMembers]
    | cons next more =>
      have hcomma : writeMembers floats false (next :: more) ++ rest
          = ',' :: (writeMembers floats true (next :: more) ++ rest) := by
        simp [writeMembers]
      have hlength : (writeMembers floats true (next :: more)).length < fuel := by
        simp only [writeMembers, if_true, Bool.false_eq_true, if_false, List.length_append,
          List.length_cons, List.length_nil] at hfuel ⊢
        omega
      have hskip : skip (writeMembers floats true (next :: more) ++ rest)
          = writeMembers floats true (next :: more) ++ rest := by
        simp only [writeMembers, if_true, List.nil_append, writeString, List.cons_append]
        exact skip_cons rfl _
      simp only [hcomma, skip_cons (show isSpace ',' = false from rfl), List.head?_cons,
        List.tail_cons, hskip,
        scanMembers_write (next :: more) (List.cons_ne_nil _ _) hothers hlength]
      simp [joinedMembers]

end

/-! ## Complete texts -/

/-- The end of the input ends a number. -/
theorem ends_nil : Ends [] := by
  simp [Ends]

/-- Reading what was written gives the value back, with the surrogates of its strings joined. -/
theorem loads_write (floats : Floats F) {v : Value F S} (hv : v.writable floats = true) :
    loads floats (write floats v) = some v.joined := by
  obtain ⟨hv, -⟩ := (Bool.and_eq_true _ _).mp hv
  have hskip := skip_write floats v []
  have hscan := scanValue_write v hv ends_nil (Nat.lt_succ_self _)
  rw [List.append_nil] at hskip hscan
  rw [loads, hskip, hscan]
  rfl

/-- A written object that is cut short is not a complete text. -/
theorem loads_prefix {members : List (S × Value F S)}
    (hv : (Value.obj members).writable floats = true) {front back : List Char}
    (hsplit : write floats (.obj members) = front ++ back) (hback : back ≠ []) :
    (loads floats front : Option (Value F S)) = none := by
  obtain ⟨hv, -⟩ := (Bool.and_eq_true _ _).mp hv
  cases front with
  | nil => simp [loads, skip, scanValue_nil]
  | cons c front =>
    have hbrace : c = '\x7b' := by
      rw [write, List.cons_append] at hsplit
      exact (List.cons.inj hsplit).1.symm
    subst hbrace
    have hskip : skip ('\x7b' :: front) = '\x7b' :: front := skip_cons rfl _
    rw [loads, hskip]
    split
    next v rest hscan =>
      have hclosed : v.Closed := by
        have hhead : ('\x7b' :: front).head? = some '\x7b' := rfl
        rw [scanValue, if_neg (by simp), if_neg (by simp), if_pos hhead] at hscan
        obtain ⟨_, _, heq⟩ := Option.map_eq_some_iff.mp hscan
        cases heq
        trivial
      -- the reader would accept the same value in the complete text and leave `back` over
      have hlong := scanValue_extend (Nat.le_add_right _ back.length) hscan (Or.inl hclosed) back
      have hwhole := scanValue_write (.obj members) hv ends_nil (Nat.lt_succ_self _)
      rw [List.append_nil, hsplit, List.length_append, Nat.succ_eq_add_one,
        Nat.add_right_comm] at hwhole
      rw [hwhole] at hlong
      have hrest := (Prod.mk.inj (Option.some.inj hlong)).2
      exact absurd (List.append_eq_nil_iff.mp hrest.symm).2 hback
    · rfl

end RoundTrip

/-! ## Printable texts -/

/-- A character of printable ASCII. -/
def Printable (c : Char) : Prop := 32 ≤ c.toNat ∧ c.toNat ≤ 126

instance : DecidablePred Printable := fun _ => inferInstanceAs (Decidable (_ ∧ _))

/-- Digits are printable. -/
theorem printable_of_isDigit {c : Char} (h : c.isDigit = true) : Printable c := by
  simp only [Char.isDigit, Bool.and_eq_true, decide_eq_true_eq] at h
  obtain ⟨h1, h2⟩ := h
  have h1' : 48 ≤ c.toNat := h1
  have h2' : c.toNat ≤ 57 := h2
  exact ⟨by omega, by omega⟩

/-- An escape is printable. -/
theorem printable_unicodeEscape {unit : ℕ} {d : Char} (h : d ∈ unicodeEscape unit) :
    Printable d := by
  have hall : ∀ n < 16, Printable (Nat.digitChar n) := by decide
  have hdigit : ∀ n, Printable (Nat.digitChar (n % 16)) := fun n =>
    hall _ (Nat.mod_lt _ (by decide))
  simp only [unicodeEscape, hex4, List.mem_cons, List.not_mem_nil, or_false] at h
  rcases h with rfl | rfl | rfl | rfl | rfl | rfl
  · decide
  · decide
  all_goals exact hdigit _

/-- An escaped character is printable. -/
theorem printable_escapeChar {c d : Char} (h : d ∈ escapeChar c) : Printable d := by
  have hpair : ∀ {e}, Printable e → d ∈ ['\\', e] → Printable d := by
    intro e he hd
    simp only [List.mem_cons, List.not_mem_nil, or_false] at hd
    rcases hd with rfl | rfl
    · decide
    · exact he
  unfold escapeChar at h
  split_ifs at h with h1 h2 h3 h4 h5 h6 h7 hprint hbmp
  any_goals exact hpair (by decide) h
  · rw [List.mem_singleton.mp h]
    exact hprint
  · exact printable_unicodeEscape h
  · rcases List.mem_append.mp h with h | h <;> exact printable_unicodeEscape h

/-- An escaped code point is printable. -/
theorem printable_escapePoint {p : Point} {d : Char} (h : d ∈ escapePoint p) : Printable d := by
  cases p with
  | char c => exact printable_escapeChar h
  | surrogate unit => exact printable_unicodeEscape h

/-- A written string is printable. -/
theorem printable_writeString {s : S} {d : Char} (h : d ∈ writeString s) : Printable d := by
  simp only [writeString, List.mem_cons, List.mem_append, List.mem_flatMap, List.not_mem_nil,
    or_false] at h
  rcases h with rfl | ⟨p, _, hp⟩ | rfl
  · decide
  · exact printable_escapePoint hp
  · decide

/-- A number is printable. -/
theorem Number.Valid.printable {n : Number} (hn : n.Valid) {d : Char} (h : d ∈ n.text) :
    Printable d := by
  have hdigits : ∀ {cs}, Digits cs → d ∈ cs → Printable d := fun hcs hd =>
    printable_of_isDigit (hcs d hd)
  simp only [Number.text, List.mem_append] at h
  rcases h with h | h | h | h
  · split_ifs at h
    · rw [List.mem_singleton.mp h]
      decide
    · cases h
  · exact hdigits hn.whole_digits h
  · split_ifs at h
    · cases h
    · rcases List.mem_cons.mp h with rfl | h
      · decide
      · exact hdigits hn.fraction_digits h
  · rcases hn.exponent_text with hnil | ⟨marker, sign, digits, heq, hmarker, hsign, _, hd⟩
    · rw [hnil] at h
      cases h
    · rw [heq, List.mem_cons, List.mem_append] at h
      rcases h with rfl | h | h
      · rcases hmarker with rfl | rfl <;> decide
      · rcases hsign with rfl | rfl | rfl
        · cases h
        · rw [List.mem_singleton.mp h]
          decide
        · rw [List.mem_singleton.mp h]
          decide
      · exact hdigits hd h

/-- The characters of a word are checked one by one. -/
theorem printable_of_all (word : List Char) (hall : word.all (fun c => decide (Printable c)) = true)
    {d : Char} (h : d ∈ word) : Printable d :=
  of_decide_eq_true (List.all_eq_true.mp hall d h)

mutual

/-- A written text is printable ASCII. -/
theorem printable_write : ∀ (v : Value F S) {d : Char}, d ∈ write floats v → Printable d
  | .null, d, h => printable_of_all "null".toList rfl h
  | .bool true, d, h => printable_of_all "true".toList rfl h
  | .bool false, d, h => printable_of_all "false".toList rfl h
  | .int n, d, h => (Number.ofInt_valid n).printable (by rwa [write] at h)
  | .float x, d, h => (floats.valid x).printable (by rwa [write] at h)
  | .str s, d, h => printable_writeString (by rwa [write] at h)
  | .arr items, d, h => by
    rw [write, List.mem_cons] at h
    rcases h with rfl | h
    · decide
    · exact printable_writeItems items h
  | .obj members, d, h => by
    rw [write, List.mem_cons] at h
    rcases h with rfl | h
    · decide
    · exact printable_writeMembers members h

/-- A written list is printable. -/
theorem printable_writeItems : ∀ (items : List (Value F S)) {first : Bool} {d : Char},
    d ∈ writeItems floats first items → Printable d
  | [], first, d, h => by
    rw [writeItems, List.mem_singleton] at h
    rw [h]
    decide
  | item :: more, first, d, h => by
    simp only [writeItems, List.mem_append] at h
    rcases h with h | h | h
    · split_ifs at h
      · cases h
      · rw [List.mem_singleton.mp h]
        decide
    · exact printable_write item h
    · exact printable_writeItems more h

/-- A written object is printable. -/
theorem printable_writeMembers : ∀ (members : List (S × Value F S)) {first : Bool} {d : Char},
    d ∈ writeMembers floats first members → Printable d
  | [], first, d, h => by
    rw [writeMembers, List.mem_singleton] at h
    rw [h]
    decide
  | (key, value) :: more, first, d, h => by
    simp only [writeMembers, List.mem_append, List.mem_cons] at h
    rcases h with h | h | rfl | h | h
    · split_ifs at h
      · cases h
      · rw [List.mem_singleton.mp h]
        decide
    · exact printable_writeString h
    · decide
    · exact printable_write value h
    · exact printable_writeMembers more h

end

end JsonText
