import Foliqant.Compiler.JsonKeys
import Foliqant.Compiler.Navigation
import Foliqant.Core.Doubles

/-!
# Three notions of JSON equality

The keys of static values, the equality of conditions and the comparison of handler contracts decide
the same relation, as long as the interpreter can print the integers of a key.
-/

namespace Foliqant.Compiler

open Foliqant.Core JsonText

/-! ## Keys of printable values -/

/-- The interpreter prints an integer with at most so many digits. -/
def shortInt (n : ℤ) : Bool := (Nat.toDigits 10 n.natAbs).length ≤ MAX_INT_DIGITS

section Printable

variable {F : Type}

mutual

/-- Every integer inside can be printed. -/
def printable : Value F → Bool
  | .int n => shortInt n
  | .arr items => printableItems items
  | .obj members => printableMembers members
  | _ => true

/-- The integers in the items can be printed. -/
def printableItems : List (Value F) → Bool
  | [] => true
  | item :: rest => printable item && printableItems rest

/-- The integers in the members can be printed. -/
def printableMembers : List (String × Value F) → Bool
  | [] => true
  | (_, value) :: rest => printable value && printableMembers rest

end

end Printable

/-- The key of a value; the writer fails at an integer that cannot be printed. -/
def key (repr : ℚ → String) (value : Json) : Except ValueError String :=
  if printable (canonical value) then .ok (jsonKey repr value) else .error .digits

/-! ## The first difference -/

/-- A character of a name that needs no quotes. -/
def isSafe (c : Char) : Bool := isUpper c || isLower c || isDigit c || ['_', '$', '.', '-'].contains c

/-- A member name in a path, unless it is unsafe to print. -/
def safeToken (key : String) : String :=
  if key ≠ "" && key.length ≤ 64 && key.toList.all isSafe then key else "*"

/-- A path, or the root. -/
def orRoot (path : String) : String := if path = "" then "/" else path

/-- Equality of values of which at most one is an array and at most one an object. -/
def scalarsEqual : Json → Json → Bool
  | .null, .null => true
  | .bool a, .bool b => a = b
  | .str a, .str b => a = b
  | left, right =>
      match left.number?, right.number? with
      | some a, some b => a = b
      | _, _ => false

/-- Texts are ordered transitively. -/
theorem text_trans : IsTrans String (· ≤ ·) := inferInstance

/-- Texts are ordered antisymmetrically. -/
theorem text_antisymm : Std.Antisymm (· ≤ · : String → String → Prop) := inferInstance

/-- The keys of two objects in order. -/
def sortedKeys (left right : Object) : List String :=
  @Finset.sort String ((Dict.keys left).toFinset ∪ (Dict.keys right).toFinset) (· ≤ ·) _ text_trans
    text_antisymm _

/-- The first differing key of two objects, with the difference of the members that both have. -/
def firstKey (left right : Object) (path : String) (found : List (String × Option String)) :
    Option String :=
  (sortedKeys left right).findSome? fun key =>
    if key ∉ Dict.keys left ∨ key ∉ Dict.keys right then some (path ++ "/" ++ safeToken key)
    else (found.lookup key).join

mutual

/-- The first differing pointer in the order of the keys, if any. -/
def firstDifference (left right : Json) (path : String) : Option String :=
  match left, right with
  | .obj left, .obj right => firstKey left right path (memberDifferences left right path)
  | .arr left, .arr right =>
      if left.length ≠ right.length then some (orRoot path) else itemDifference 0 left right path
  | left, right => if scalarsEqual left right then none else some (orRoot path)

/-- The first difference of two lists, from an index on. -/
def itemDifference (index : ℕ) (left right : List Json) (path : String) : Option String :=
  match left, right with
  | a :: left, b :: right =>
      (firstDifference a b (path ++ "/" ++ toString index)).or
        (itemDifference (index + 1) left right path)
  | _, _ => none

/-- The differences of the members of the first object that the second has as well. -/
def memberDifferences (left right : Object) (path : String) : List (String × Option String) :=
  match left with
  | [] => []
  | (key, a) :: left =>
      (key, match right.lookup key with
        | some b => firstDifference a b (path ++ "/" ++ safeToken key)
        | none => none) :: memberDifferences left right path

end

/-! ## Canonical values -/

/-- Sorting keeps the members. -/
theorem mem_sortMembers {members : Object} {key : String} {value : Json} :
    (key, value) ∈ sortMembers members ↔ members.lookup key = some value := by
  unfold sortMembers
  rw [List.mem_filterMap]
  constructor
  · rintro ⟨name, -, found⟩
    obtain ⟨held, here, same⟩ := Option.map_eq_some_iff.mp found
    cases same
    exact here
  · intro here
    refine ⟨key, ?_, Option.map_eq_some_iff.mpr ⟨value, here, rfl⟩⟩
    rw [Finset.mem_sort, List.mem_toFinset]
    exact Dict.mem_keys_of_lookup here

/-- A number keeps its value. -/
theorem canonical_number? (value : Json) : (canonical value).number? = value.number? := by
  cases value with
  | float x =>
    unfold canonical
    split
    · rename_i whole
      exact congrArg some (Rat.eq_num_of_isInt whole).symm
    · rfl
  | _ => rfl

/-- The canonical value is of the same kind. -/
theorem lead_canonical (value : Json) : lead (canonical value) = lead value := by
  cases value with
  | float x =>
    unfold canonical
    split <;> rfl
  | _ => rfl

/-- Numbers compare by value. -/
theorem jsonEqual_numbers {a b : Json} (number : lead a = '0') (number' : lead b = '0') :
    jsonEqual a b = true ↔ a.number? = b.number? := by
  have casts {n m : ℤ} : decide (n = m) = true ↔ some (n : ℚ) = some (m : ℚ) := by
    rw [decide_eq_true_iff, Option.some.injEq, Int.cast_inj]
  have values {x y : ℚ} : decide (x = y) = true ↔ some x = some y := by
    rw [decide_eq_true_iff, Option.some.injEq]
  rcases eq_number number with ⟨n, rfl⟩ | ⟨x, rfl⟩ <;> rcases eq_number number' with ⟨m, rfl⟩ | ⟨y, rfl⟩
  · exact casts
  · exact values
  · exact values
  · exact values

/-- Values with one canonical form are of one kind. -/
theorem lead_eq_of_canonical {a b : Json} (same : canonical a = canonical b) : lead b = lead a := by
  rw [← lead_canonical b, ← same, lead_canonical]

mutual

/-- Values with one canonical form compare equal. -/
theorem equal_of_canonical : (a b : Json) → a.Distinct → canonical a = canonical b →
    jsonEqual a b = true
  -- the first token of the canonical text fixes the kind of the other value
  | .arr as, b, distinct, same => by
      obtain ⟨bs, rfl⟩ := eq_arr (lead_eq_of_canonical same)
      exact itemsEqual_of_canonical as bs distinct (Value.arr.inj same)
  | .obj as, b, distinct, same => by
      obtain ⟨bs, rfl⟩ := eq_obj (lead_eq_of_canonical same)
      have sorted : sortMembers (canonicalMembers as) = sortMembers (canonicalMembers bs) :=
        Value.obj.inj same
      -- sorted members that are equal hold the same value for every key
      have lookups (key : String) :
          (as.lookup key).map canonical = (bs.lookup key).map canonical := by
        refine Option.ext fun value => ?_
        rw [← lookup_canonicalMembers, ← lookup_canonicalMembers, ← mem_sortMembers,
          ← mem_sortMembers, sorted]
      refine Bool.and_eq_true_iff.mpr ⟨List.all_eq_true.mpr fun key mem => ?_,
        membersEqual_of_canonical as bs distinct.2 fun key a mem => ?_⟩
      · rw [decide_eq_true_iff]
        by_contra absent
        have none := lookups key
        rw [Dict.lookup_eq_none.mpr absent] at none
        exact Dict.lookup_eq_none.mp (Option.map_eq_none_iff.mp none.symm) mem
      · have here := lookups key
        rw [Dict.lookup_of_mem distinct.1 mem] at here
        obtain ⟨b, found, value⟩ := Option.map_eq_some_iff.mp here.symm
        exact ⟨b, found, value.symm⟩
  | .int n, b, _, same => by
      refine (jsonEqual_numbers rfl (lead_eq_of_canonical same)).mpr ?_
      rw [← canonical_number?, same, canonical_number?]
  | .float x, b, _, same => by
      refine (jsonEqual_numbers rfl (lead_eq_of_canonical same)).mpr ?_
      rw [← canonical_number? (.float x), same, canonical_number?]
  | .null, b, _, same => by
      obtain rfl := eq_null (lead_eq_of_canonical same)
      rfl
  | .bool a, b, _, same => by
      obtain rfl := eq_bool (lead_eq_of_canonical same)
      exact decide_eq_true rfl
  | .str text, b, _, same => by
      obtain ⟨text', rfl⟩ := eq_str (lead_eq_of_canonical same)
      exact decide_eq_true (Value.str.inj same)

/-- Lists with one canonical form are equal. -/
theorem itemsEqual_of_canonical : (as bs : List Json) → ItemsDistinct as →
    canonicalItems as = canonicalItems bs → itemsEqual as bs = true
  | [], [], _, _ => rfl
  | a :: as, b :: bs, distinct, same => by
      obtain ⟨here, later⟩ := List.cons.inj same
      exact Bool.and_eq_true_iff.mpr ⟨equal_of_canonical a b distinct.1 here,
        itemsEqual_of_canonical as bs distinct.2 later⟩

/-- Members with canonical forms in one another are equal. -/
theorem membersEqual_of_canonical : (as bs : Object) → MembersDistinct as →
    (∀ key a, (key, a) ∈ as → ∃ b, bs.lookup key = some b ∧ canonical a = canonical b) →
    membersEqual as bs = true
  | [], _, _, _ => rfl
  | (key, a) :: as, bs, distinct, same => by
      obtain ⟨b, found, here⟩ := same key a List.mem_cons_self
      refine Bool.and_eq_true_iff.mpr ⟨?_, membersEqual_of_canonical as bs distinct.2
        fun name value mem => same name value (List.mem_cons_of_mem _ mem)⟩
      rw [found]
      exact equal_of_canonical a b distinct.1 here

end

/-- Values are equal when their canonical forms are. -/
theorem jsonEqual_iff_canonical {a b : Json} (distinct : a.Distinct) :
    jsonEqual a b = true ↔ canonical a = canonical b :=
  ⟨canonical_of_equal a b, equal_of_canonical a b distinct⟩

/-! ## Differences -/

/-- The difference of a member that both have. -/
theorem lookup_memberDifferences {left right : Object} {path key : String} {a b : Json}
    (here : left.lookup key = some a) (there : right.lookup key = some b) :
    (memberDifferences left right path).lookup key =
      some (firstDifference a b (path ++ "/" ++ safeToken key)) := by
  induction left with
  | nil => cases here
  | cons member left ih =>
    obtain ⟨name, value⟩ := member
    unfold memberDifferences
    rw [List.lookup_cons] at here ⊢
    by_cases same : key = name
    · subst same
      rw [beq_self_eq_true] at here ⊢
      cases here
      rw [there]
    · rw [beq_false_of_ne same] at here ⊢
      exact ih here

/-- Objects do not differ when they have the same keys with members that do not differ. -/
theorem firstKey_eq_none {left right : Object} {path : String} :
    firstKey left right path (memberDifferences left right path) = none ↔
      (∀ key, key ∈ Dict.keys left ↔ key ∈ Dict.keys right) ∧
        ∀ key a b, left.lookup key = some a → right.lookup key = some b →
          firstDifference a b (path ++ "/" ++ safeToken key) = none := by
  unfold firstKey
  rw [List.findSome?_eq_none_iff]
  have mem {key : String} : key ∈ sortedKeys left right ↔
      key ∈ Dict.keys left ∨ key ∈ Dict.keys right := by
    rw [sortedKeys, Finset.mem_sort, Finset.mem_union, List.mem_toFinset, List.mem_toFinset]
  constructor
  · intro none
    have both {key : String} (mem' : key ∈ sortedKeys left right) :
        key ∈ Dict.keys left ∧ key ∈ Dict.keys right := by
      have here := none key mem'
      by_contra missing
      rw [if_pos (Decidable.not_and_iff_or_not.mp missing)] at here
      cases here
    refine ⟨fun key => ⟨fun h => (both (mem.mpr (.inl h))).2, fun h => (both (mem.mpr (.inr h))).1⟩,
      ?_⟩
    intro key a b here there
    have known := both (mem.mpr (.inl (Dict.mem_keys_of_lookup here)))
    have found := none key (mem.mpr (.inl known.1))
    rw [if_neg (fun h => h.elim (absurd known.1) (absurd known.2)),
      lookup_memberDifferences here there] at found
    exact found
  · rintro ⟨keys, members⟩ key mem'
    have left' : key ∈ Dict.keys left := (mem.mp mem').elim id (keys key).mpr
    have right' : key ∈ Dict.keys right := (keys key).mp left'
    rw [if_neg (fun h => h.elim (absurd left') (absurd right'))]
    obtain ⟨a, here⟩ := Dict.lookup_isSome left'
    obtain ⟨b, there⟩ := Dict.lookup_isSome right'
    rw [lookup_memberDifferences here there]
    exact members key a b here there

/-- Members are equal when each has an equal one. -/
theorem membersEqual_iff {left right : Object} : membersEqual left right = true ↔
    ∀ key a, (key, a) ∈ left → ∃ b, right.lookup key = some b ∧ jsonEqual a b = true := by
  induction left with
  | nil => exact iff_of_true rfl fun _ _ mem => absurd mem List.not_mem_nil
  | cons member left ih =>
    obtain ⟨name, value⟩ := member
    unfold membersEqual
    rw [Bool.and_eq_true, ih]
    constructor
    · rintro ⟨here, later⟩ key a mem
      rcases List.mem_cons.mp mem with same | mem
      · cases same
        cases found : right.lookup name with
        | none =>
          rw [found] at here
          cases here
        | some b =>
          rw [found] at here
          exact ⟨b, rfl, here⟩
      · exact later key a mem
    · intro all
      refine ⟨?_, fun key a mem => all key a (List.mem_cons_of_mem _ mem)⟩
      obtain ⟨b, found, equal⟩ := all name value List.mem_cons_self
      rw [found]
      exact equal

/-- Values that are no containers are compared as such. -/
theorem scalarsEqual_eq {left right : Json} (arrays : lead left ≠ '[')
    (objects : lead left ≠ '\x7b') :
    scalarsEqual left right = jsonEqual left right := by
  cases left with
  | arr => exact absurd rfl arrays
  | obj => exact absurd rfl objects
  | int n => cases right <;> simp [scalarsEqual, jsonEqual, Json.number?]
  | _ => cases right <;> rfl

/-- No text when there is no difference. -/
theorem if_eq_none {b : Bool} {text : String} :
    (if b then none else some text) = none ↔ b = true := by
  cases b <;> simp

/-- A value that is no container has no difference exactly from the values equal to it. -/
theorem scalarDifference_eq_none {left right : Json} {path : String} (arrays : lead left ≠ '[')
    (objects : lead left ≠ '\x7b') :
    firstDifference left right path = none ↔ jsonEqual left right = true := by
  have scalar : firstDifference left right path =
      if scalarsEqual left right then none else some (orRoot path) := by
    cases left with
    | arr => exact absurd rfl arrays
    | obj => exact absurd rfl objects
    | _ => cases right <;> rfl
  rw [scalar, if_eq_none, scalarsEqual_eq arrays objects]

/-- Equal lists are of one length. -/
theorem itemsEqual_length (left right : List Json) (equal : itemsEqual left right = true) :
    left.length = right.length := by
  induction left generalizing right with
  | nil =>
    cases right with
    | nil => rfl
    | cons => cases equal
  | cons item rest ih =>
    cases right with
    | nil => cases equal
    | cons other others => exact congrArg (· + 1) (ih others (Bool.and_eq_true_iff.mp equal).2)

mutual

/-- The first difference is missing exactly between equal values. -/
theorem firstDifference_eq_none : (left right : Json) → (path : String) → left.Distinct →
    (firstDifference left right path = none ↔ jsonEqual left right = true)
  | .obj left, .obj right, path, distinct => by
      refine firstKey_eq_none.trans ?_
      unfold jsonEqual
      rw [Bool.and_eq_true, List.all_eq_true, membersEqual_iff]
      constructor
      · rintro ⟨keys, members⟩
        refine ⟨fun key mem => decide_eq_true ((keys key).mpr mem), fun key a mem => ?_⟩
        have here := Dict.lookup_of_mem distinct.1 mem
        obtain ⟨b, there⟩ := Dict.lookup_isSome ((keys key).mp (Dict.mem_keys_of_lookup here))
        exact ⟨b, there, (memberDifference_eq_none left distinct.2 key a mem b _).mp
          (members key a b here there)⟩
      · rintro ⟨known, members⟩
        refine ⟨fun key => ⟨fun mem => ?_, fun mem => of_decide_eq_true (known key mem)⟩, ?_⟩
        · obtain ⟨a, here⟩ := Dict.lookup_isSome mem
          obtain ⟨b, there, -⟩ := members key a (Dict.mem_of_lookup here)
          exact Dict.mem_keys_of_lookup there
        · intro key a b here there
          obtain ⟨b', there', equal⟩ := members key a (Dict.mem_of_lookup here)
          cases there.symm.trans there'
          exact (memberDifference_eq_none left distinct.2 key a (Dict.mem_of_lookup here) b _).mpr
            equal
  | .arr left, .arr right, path, distinct => by
      unfold firstDifference
      by_cases lengths : left.length = right.length
      · rw [if_neg (not_not.mpr lengths)]
        exact itemDifference_eq_none left right path 0 lengths distinct
      · rw [if_pos lengths]
        refine iff_of_false (Option.some_ne_none _) fun equal => lengths ?_
        exact itemsEqual_length left right equal
  -- values of different kinds differ at the path itself
  | .obj left, .arr right, _, _ | .obj left, .null, _, _ | .obj left, .bool _, _, _
  | .obj left, .int _, _, _ | .obj left, .float _, _, _ | .obj left, .str _, _, _
  | .arr left, .obj right, _, _ | .arr left, .null, _, _ | .arr left, .bool _, _, _
  | .arr left, .int _, _, _ | .arr left, .float _, _, _ | .arr left, .str _, _, _ =>
      iff_of_false (Option.some_ne_none _) Bool.false_ne_true
  | .null, _, _, _ => scalarDifference_eq_none (by decide) (by decide)
  | .bool a, _, _, _ => scalarDifference_eq_none (by cases a <;> decide) (by cases a <;> decide)
  | .int _, _, _, _ | .float _, _, _, _ | .str _, _, _, _ =>
      scalarDifference_eq_none (by simp [lead]) (by simp [lead])

/-- Lists without a difference are equal. -/
theorem itemDifference_eq_none : (left right : List Json) → (path : String) → (index : ℕ) →
    left.length = right.length → ItemsDistinct left →
    (itemDifference index left right path = none ↔ itemsEqual left right = true)
  | [], [], _, _, _, _ => iff_of_true rfl rfl
  | a :: left, b :: right, path, index, lengths, distinct => by
      unfold itemDifference itemsEqual
      rw [Option.or_eq_none_iff, Bool.and_eq_true, firstDifference_eq_none a b _ distinct.1,
        itemDifference_eq_none left right path _ (Nat.succ.inj lengths) distinct.2]

/-- Members without a difference are equal. -/
theorem memberDifference_eq_none : (left : Object) → MembersDistinct left →
    ∀ key a, (key, a) ∈ left → ∀ b path,
      (firstDifference a b path = none ↔ jsonEqual a b = true)
  | (name, value) :: left, distinct, key, a, mem, b, path => by
      rcases List.mem_cons.mp mem with same | mem
      · obtain ⟨rfl, rfl⟩ := Prod.mk.inj same
        exact firstDifference_eq_none a b path distinct.1
      · exact memberDifference_eq_none left distinct.2 key a mem b path

end

/-! ## Values of the interpreter -/

/-- The numbers of the floats that a key prints: the others are integers. -/
def Fractional (x : ℚ) : Prop := x.isInt = false ∧ ∃ float : Double, float.value = x

/-- The floats of each member. -/
theorem memberFloatsIn_iff {floats : ℚ → Prop} {members : Object} :
    MemberFloatsIn floats members ↔ ∀ key value, (key, value) ∈ members → FloatsIn floats value := by
  induction members with
  | nil => exact iff_of_true trivial fun _ _ mem => absurd mem List.not_mem_nil
  | cons member rest ih =>
    obtain ⟨name, first⟩ := member
    unfold MemberFloatsIn
    rw [ih]
    constructor
    · rintro ⟨here, later⟩ key value mem
      rcases List.mem_cons.mp mem with same | mem
      · cases same
        exact here
      · exact later key value mem
    · exact fun all => ⟨all name first List.mem_cons_self,
        fun key value mem => all key value (List.mem_cons_of_mem _ mem)⟩

mutual

/-- Canonical floats have a fraction. -/
theorem canonical_fractional : (value : PyJson) → FloatsIn Fractional (canonical value.numeric)
  | .null | .bool _ | .int _ | .str _ => trivial
  | .float x => by
      unfold PyJson.numeric canonical
      split
      · trivial
      · rename_i fraction
        exact ⟨Bool.eq_false_iff.mpr fraction, x, rfl⟩
  | .arr items => canonicalItems_fractional items
  | .obj members => by
      refine memberFloatsIn_iff.mpr fun key value mem => ?_
      exact memberFloatsIn_iff.mp (canonicalMembers_fractional members) key value
        (Dict.mem_of_lookup (mem_sortMembers.mp mem))

/-- Canonical floats in items have a fraction. -/
theorem canonicalItems_fractional : (items : List PyJson) →
    ItemFloatsIn Fractional (canonicalItems (numericItems items))
  | [] => trivial
  | item :: rest => ⟨canonical_fractional item, canonicalItems_fractional rest⟩

/-- Canonical floats in members have a fraction. -/
theorem canonicalMembers_fractional : (members : List (String × PyJson)) →
    MemberFloatsIn Fractional (canonicalMembers (numericMembers members))
  | [] => trivial
  | (_, value) :: rest => ⟨canonical_fractional value, canonicalMembers_fractional rest⟩

end

/-- An integral float has at most 309 digits. -/
theorem shortInt_num (x : Double) (whole : x.value.isInt = true) : shortInt x.value.num = true := by
  have bound := x.value_bound
  rw [Rat.eq_num_of_isInt whole, ← Int.cast_abs, Int.abs_eq_natAbs, Int.cast_natCast, ← Nat.cast_two,
    ← Nat.cast_pow] at bound
  have small := Nat.cast_lt.mp bound
  have large : ∀ bits ≤ MAX_INT_DIGITS, 2 ^ bits ≤ 10 ^ MAX_INT_DIGITS := fun bits few =>
    (Nat.pow_le_pow_left (by decide) bits).trans (Nat.pow_le_pow_right (by decide) few)
  exact decide_eq_true ((Nat.length_toDigits_le_iff (by decide) (by decide)).mpr
    (small.trans_le (large 1024 (by decide))))

/-- Members can be printed when each can. -/
theorem printableMembers_iff {members : Object} :
    printableMembers members = true ↔ ∀ key value, (key, value) ∈ members →
    printable value = true := by
  induction members with
  | nil => exact iff_of_true rfl fun _ _ mem => absurd mem List.not_mem_nil
  | cons member rest ih =>
    obtain ⟨name, first⟩ := member
    unfold printableMembers
    rw [Bool.and_eq_true, ih]
    constructor
    · rintro ⟨here, later⟩ key value mem
      rcases List.mem_cons.mp mem with same | mem
      · cases same
        exact here
      · exact later key value mem
    · exact fun all => ⟨all name first List.mem_cons_self,
        fun key value mem => all key value (List.mem_cons_of_mem _ mem)⟩

/-- Sorting the members of an object with differing keys loses none. -/
theorem printableMembers_sort {members : Object} (distinct : (Dict.keys members).Nodup) :
    printableMembers (sortMembers members) = printableMembers members := by
  rw [Bool.eq_iff_iff, printableMembers_iff, printableMembers_iff]
  constructor
  · exact fun all key value mem =>
      all key value (mem_sortMembers.mpr (Dict.lookup_of_mem distinct mem))
  · exact fun all key value mem => all key value (Dict.mem_of_lookup (mem_sortMembers.mp mem))

/-- Canonical members have the same keys. -/
theorem keys_canonicalMembers (members : Object) :
    Dict.keys (canonicalMembers members) = Dict.keys members := by
  induction members with
  | nil => rfl
  | cons member rest ih => exact congrArg (member.1 :: ·) ih

mutual

/-- The canonical form is printable when the value is. -/
theorem printable_canonical : (value : PyJson) → value.Distinct →
    printable (canonical value.numeric) = printable value.numeric
  | .null, _ | .bool _, _ | .int _, _ | .str _, _ => rfl
  | .float x, _ => by
      unfold PyJson.numeric canonical
      split
      · rename_i whole
        exact shortInt_num x whole
      · rfl
  | .arr items, distinct => printableItems_canonical items distinct
  | .obj members, distinct => by
      have keys : (Dict.keys (canonicalMembers (numericMembers members))).Nodup := by
        rw [keys_canonicalMembers, Dict.keys, keys_numericMembers]
        exact distinct.1
      exact (printableMembers_sort keys).trans (printableMembers_canonical members distinct.2)

/-- Canonical items can be printed as the items can. -/
theorem printableItems_canonical : (items : List PyJson) → ItemsDistinct items →
    printableItems (canonicalItems (numericItems items)) = printableItems (numericItems items)
  | [], _ => rfl
  | item :: rest, distinct =>
      congrArg₂ _ (printable_canonical item distinct.1) (printableItems_canonical rest distinct.2)

/-- Canonical members can be printed as the members can. -/
theorem printableMembers_canonical : (members : List (String × PyJson)) → MembersDistinct members →
    printableMembers (canonicalMembers (numericMembers members)) =
      printableMembers (numericMembers members)
  | [], _ => rfl
  | (_, value) :: rest, distinct =>
      congrArg₂ _ (printable_canonical value distinct.1) (printableMembers_canonical rest distinct.2)

end

/-! ## Agreement -/

/-- Values whose objects have differing keys. -/
abbrev PyValue := { value : PyJson // value.Distinct }

variable {repr : ℚ → String}

/-- The three notions of equality agree on two values: both have keys, and the keys are the same exactly
when the frozen values compare equal, exactly when they have no first difference. -/
def NotionsAgree (repr : ℚ → String) (a b : PyJson) : Prop :=
  ∀ left right, freezeJson MAX_JSON_DEPTH a.numeric = .ok left →
    freezeJson MAX_JSON_DEPTH b.numeric = .ok right →
    ∃ first second, key repr a.numeric = .ok first ∧ key repr b.numeric = .ok second ∧
      (first = second ↔ jsonEqual left right = true) ∧
      (jsonEqual left right = true ↔ firstDifference left right "" = none)

/-- Keys are the same exactly for values that compare equal. -/
theorem jsonKey_inj (texts : FloatTexts repr Fractional) {a b : PyJson} (distinct : a.Distinct) :
    jsonKey repr a.numeric = jsonKey repr b.numeric ↔ jsonEqual a.numeric b.numeric = true := by
  rw [jsonEqual_iff_canonical (numeric_distinct a distinct)]
  constructor
  · intro same
    have stop : Stops [] := fun c head => by cases head
    have chars := String.ofList_injective same
    exact (dumps_inj texts _ _ (canonical_fractional a) (canonical_fractional b) [] [] stop stop
      (by rw [chars])).1
  · intro same
    unfold jsonKey
    rw [same]

/-- The notions of equality agree exactly on values that can be printed. -/
theorem notionsAgree_iff (texts : FloatTexts repr Fractional) {a b : PyValue}
    (frozen : depth a.1.numeric ≤ MAX_JSON_DEPTH) (frozen' : depth b.1.numeric ≤ MAX_JSON_DEPTH) :
    NotionsAgree repr a.1 b.1 ↔ printable a.1.numeric = true ∧ printable b.1.numeric = true := by
  have hasKey {value : PyValue} : (∃ text, key repr value.1.numeric = .ok text) ↔
      printable value.1.numeric = true := by
    rw [key, printable_canonical value.1 value.2]
    cases printable value.1.numeric <;> simp
  constructor
  · intro agree
    obtain ⟨first, second, here, there, -⟩ :=
      agree _ _ (freezeJson_eq_ok.mpr ⟨frozen, rfl⟩) (freezeJson_eq_ok.mpr ⟨frozen', rfl⟩)
    exact ⟨hasKey.mp ⟨first, here⟩, hasKey.mp ⟨second, there⟩⟩
  · rintro ⟨short, short'⟩ left right accepted accepted'
    obtain ⟨-, rfl⟩ := freezeJson_eq_ok.mp accepted
    obtain ⟨-, rfl⟩ := freezeJson_eq_ok.mp accepted'
    refine ⟨jsonKey repr a.1.numeric, jsonKey repr b.1.numeric, ?_, ?_, jsonKey_inj texts a.2,
      (firstDifference_eq_none _ _ _ (numeric_distinct a.1 a.2)).symm⟩
    · rw [key, printable_canonical a.1 a.2, if_pos short]
    · rw [key, printable_canonical b.1 b.2, if_pos short']

/-- Equality of values is an equivalence. -/
theorem jsonEqual_equivalence :
    Equivalence fun a b : PyValue => jsonEqual a.1.numeric b.1.numeric = true where
  refl a := (jsonEqual_iff_canonical (numeric_distinct a.1 a.2)).mpr rfl
  symm {a b} same := by
    rw [jsonEqual_iff_canonical (numeric_distinct _ a.2)] at same
    exact (jsonEqual_iff_canonical (numeric_distinct _ b.2)).mpr same.symm
  trans {a b c} first second := by
    rw [jsonEqual_iff_canonical (numeric_distinct _ a.2)] at first
    rw [jsonEqual_iff_canonical (numeric_distinct _ b.2)] at second
    exact (jsonEqual_iff_canonical (numeric_distinct _ a.2)).mpr (first.trans second)

/-- The three notions agree on values that freeze exactly when the integers inside can be printed, and
equality is an equivalence. -/
theorem equalities_agree (texts : FloatTexts repr Fractional) :
    (∀ a b : PyValue, depth a.1.numeric ≤ MAX_JSON_DEPTH → depth b.1.numeric ≤ MAX_JSON_DEPTH →
      (NotionsAgree repr a.1 b.1 ↔
        printable a.1.numeric = true ∧ printable b.1.numeric = true)) ∧
    Equivalence fun a b : PyValue => jsonEqual a.1.numeric b.1.numeric = true :=
  ⟨fun _ _ frozen frozen' => notionsAgree_iff texts frozen frozen', jsonEqual_equivalence⟩

/-! ## Examples -/

/-- A text for each fraction: the numerator and the denominator with a point between them. -/
def fractionText (x : ℚ) : String :=
  String.ofList ((Number.ofInt x.num).text ++ '.' :: Nat.toDigits 10 x.den)

/-- A text of fractions tells floats apart. -/
theorem fractionText_texts (floats : ℚ → Prop) : FloatTexts fractionText floats where
  chars x _ c mem := by
    rw [fractionText, String.toList_ofList] at mem
    rcases List.mem_append.mp mem with mem | mem
    · exact isNumberChar_of_int (ofInt_chars _ c mem)
    · rcases List.mem_cons.mp mem with rfl | mem
      · rfl
      · exact isNumberChar_of_int (.inl (Nat.isDigit_of_mem_toDigits (by decide) (by decide) mem))
  fractional x _ := by
    rw [fractionText, String.toList_ofList]
    exact .inl (List.mem_append_right _ List.mem_cons_self)
  injective x y _ _ same := by
    have first (z : ℚ) : ((Number.ofInt z.num).text ++
        '.' :: Nat.toDigits 10 z.den).takeWhile (· ≠ '.') =
        (Number.ofInt z.num).text := by
      rw [List.takeWhile_append_of_pos]
      · simp
      · intro c mem
        rcases ofInt_chars _ c mem with digit | rfl
        · refine decide_eq_true fun point => ?_
          rw [point] at digit
          exact absurd digit (by decide)
        · decide
    have chars := String.ofList_injective same
    have numerators : (Number.ofInt x.num).text = (Number.ofInt y.num).text := by
      rw [← first x, ← first y, chars]
    rw [numerators, List.append_cancel_left_eq, List.cons.injEq] at chars
    refine Rat.ext (ofInt_inj numerators) ?_
    rw [← @Nat.ofDigitChars_ten_toDigits x.den, chars.2, Nat.ofDigitChars_ten_toDigits]

/-- A negative zero and an integral float. -/
def floatPair : PyValue :=
  ⟨.arr [.float ⟨true, 0, 0, by decide, by decide, by decide⟩,
    .float ⟨false, 1, 1, by decide, by decide, by decide⟩], by simp [Value.Distinct, ItemsDistinct]⟩

/-- Two integers. -/
def intPair : PyValue := ⟨.arr [.int 0, .int 2], by simp [Value.Distinct, ItemsDistinct]⟩

/-- On this pair the notions agree. -/
theorem pairs_agree : NotionsAgree fractionText floatPair.1 intPair.1 ↔
    printable floatPair.1.numeric = true ∧ printable intPair.1.numeric = true :=
  (equalities_agree (fractionText_texts Fractional)).1 floatPair intPair (by decide) (by decide)

/-- The smallest integer that cannot be printed. -/
theorem shortInt_power : shortInt (10 ^ MAX_INT_DIGITS) = false := by
  refine decide_eq_false fun short => ?_
  have power : ∀ digits : ℕ, ((10 : ℤ) ^ digits).natAbs = 10 ^ digits := Int.natAbs_pow 10
  rw [power, Nat.length_toDigits_le_iff (by decide) (by decide)] at short
  exact lt_irrefl _ short

/-- The value of that integer. -/
def longInteger : PyValue := ⟨.int (10 ^ MAX_INT_DIGITS), trivial⟩

/-- On an integer that cannot be printed the notions disagree. -/
theorem longInteger_disagrees : ¬ NotionsAgree fractionText longInteger.1 longInteger.1 := by
  intro agree
  obtain ⟨first, second, here, -⟩ := agree _ _ rfl rfl
  have failed : key fractionText longInteger.1.numeric = .error .digits := if_neg (by
    show ¬ shortInt (10 ^ MAX_INT_DIGITS) = true
    rw [shortInt_power]
    exact Bool.false_ne_true)
  cases failed.symm.trans here

end Foliqant.Compiler
