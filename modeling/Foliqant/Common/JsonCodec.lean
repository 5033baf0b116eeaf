import Foliqant.Common.Dict
import Foliqant.Common.JsonText

/-!
# Strict codecs

A codec writes values of one type as JSON and reads them back: strings, lists, nullable values and
closed records with named members. The reader refuses every other shape, and what the writer wrote is
read as the same value.
-/

namespace JsonText

variable {F α β γ : Type}

/-- A writer with a reader that accepts what it writes. -/
structure Codec (F α : Type) where
  encode : α → Value F
  decode : Value F → Option α
  roundtrip : ∀ a, decode (encode a) = some a

namespace Codec

/-- Strings. -/
def text : Codec F String where
  encode := .str
  decode
    | .str s => some s
    | _ => none
  roundtrip _ := rfl

/-- Another representation of the same values. -/
def iso (codec : Codec F α) (pack : α → β) (unpack : β → α) (inverse : ∀ b, pack (unpack b) = b) :
    Codec F β where
  encode b := codec.encode (unpack b)
  decode value := (codec.decode value).map pack
  roundtrip b := by rw [codec.roundtrip, Option.map_some, inverse]

/-- The values with a property. -/
def refine (codec : Codec F α) (legal : α → Prop) [DecidablePred legal] :
    Codec F { a // legal a } where
  encode a := codec.encode a.1
  decode value := (codec.decode value).bind fun a => if h : legal a then some ⟨a, h⟩ else none
  roundtrip a := by rw [codec.roundtrip, Option.bind_some, dif_pos a.2]

/-- Strings that stand for the values of an enumeration. -/
def names (values : List α) (name : α → String)
    (complete : ∀ a, values.find? (fun b => name b = name a) = some a) : Codec F α where
  encode a := .str (name a)
  decode
    | .str s => values.find? fun b => name b = s
    | _ => none
  roundtrip := complete

/-- The only string of a tag. -/
def constant (name : String) : Codec F Unit := names [()] (fun _ => name) (by simp)

/-- Every item of a list, each decoded by the codec of the items. -/
def decodeItems (codec : Codec F α) : List (Value F) → Option (List α)
  | [] => some []
  | item :: rest => do
      let a ← codec.decode item
      let others ← decodeItems codec rest
      return a :: others

/-- The items of a written list are read back. -/
theorem decodeItems_encode (codec : Codec F α) (items : List α) :
    codec.decodeItems (items.map codec.encode) = some items := by
  induction items with
  | nil => rfl
  | cons a rest ih =>
    rw [List.map_cons, decodeItems, codec.roundtrip, ih]
    rfl

/-- A list of values under the codec of its items. -/
def list (codec : Codec F α) : Codec F (List α) where
  encode items := .arr (items.map codec.encode)
  decode
    | .arr items => codec.decodeItems items
    | _ => none
  roundtrip := codec.decodeItems_encode

/-- Null for an absent value. -/
def nullable (codec : Codec F α) (apart : ∀ a, codec.encode a ≠ .null) : Codec F (Option α) where
  encode
    | some a => codec.encode a
    | none => .null
  decode
    | .null => some none
    | value => (codec.decode value).map some
  roundtrip a := by
    cases a with
    | none => rfl
    | some a =>
      have roundtrip := codec.roundtrip a
      have apart := apart a
      cases shape : codec.encode a with
      | null => exact absurd shape apart
      | _ =>
        rw [shape] at roundtrip
        simp only [shape, roundtrip, Option.map_some]

/-- One of two kinds of values that are told apart by their shape. -/
def either (left : Codec F α) (right : Codec F β)
    (apart : ∀ b, left.decode (right.encode b) = none) : Codec F (α ⊕ β) where
  encode
    | .inl a => left.encode a
    | .inr b => right.encode b
  decode value := ((left.decode value).map .inl).or ((right.decode value).map .inr)
  roundtrip
    | .inl a => by simp [left.roundtrip]
    | .inr b => by simp [apart, right.roundtrip]

end Codec

/-! ## Records -/

/-- The members of a record: a writer, and a reader that depends on its own keys only. -/
structure Fields (F α : Type) where
  keys : List String
  write : α → List (String × Value F)
  read : List (String × Value F) → Option α
  keys_write : ∀ a, Dict.keys (write a) = keys
  read_write : ∀ a members, (∀ key ∈ keys, members.lookup key = (write a).lookup key) →
    read members = some a

namespace Fields

/-- An object with one field. -/
def one (key : String) (codec : Codec F α) : Fields F α where
  keys := [key]
  write a := [(key, codec.encode a)]
  read members := (members.lookup key).bind codec.decode
  keys_write _ := rfl
  read_write a members agree := by
    rw [agree key (List.mem_singleton_self key), List.lookup_cons_self, Option.bind_some,
      codec.roundtrip]

/-- A key of the left members is found there. -/
theorem lookup_append_left {left right : List (String × Value F)} {key : String}
    (mem : key ∈ Dict.keys left) : (left ++ right).lookup key = left.lookup key := by
  obtain ⟨value, found⟩ := Dict.lookup_isSome mem
  rw [List.lookup_append, found, Option.some_or]

/-- A key absent on the left is found among the right members. -/
theorem lookup_append_right {left right : List (String × Value F)} {key : String}
    (mem : key ∉ Dict.keys left) : (left ++ right).lookup key = right.lookup key := by
  rw [List.lookup_append, Dict.lookup_eq_none.mpr mem, Option.none_or]

/-- The members of two records with different keys. -/
def both (left : Fields F α) (right : Fields F β) (disjoint : ∀ key ∈ right.keys, key ∉ left.keys) :
    Fields F (α × β) where
  keys := left.keys ++ right.keys
  write ab := left.write ab.1 ++ right.write ab.2
  read members := (left.read members).bind fun a => (right.read members).map (a, ·)
  keys_write ab := by
    rw [Dict.keys, List.map_append]
    exact congrArg₂ _ (left.keys_write ab.1) (right.keys_write ab.2)
  read_write ab members agree := by
    have hleft : left.read members = some ab.1 := by
      refine left.read_write ab.1 members fun key mem => ?_
      rw [agree key (List.mem_append_left _ mem)]
      exact lookup_append_left (by rw [left.keys_write]; exact mem)
    have hright : right.read members = some ab.2 := by
      refine right.read_write ab.2 members fun key mem => ?_
      rw [agree key (List.mem_append_right _ mem)]
      exact lookup_append_right (by rw [left.keys_write]; exact disjoint key mem)
    rw [hleft, hright]
    rfl

/-- A tag with a value that is read as the tag says. -/
def tagged (tagKey valueKey : String) (apart : valueKey ≠ tagKey) (tag : α → String)
    (encode : α → Value F) (decode : String → Value F → Option α)
    (roundtrip : ∀ a, decode (tag a) (encode a) = some a) : Fields F α where
  keys := [tagKey, valueKey]
  write a := [(tagKey, .str (tag a)), (valueKey, encode a)]
  read members :=
    match members.lookup tagKey, members.lookup valueKey with
    | some (.str name), some value => decode name value
    | _, _ => none
  keys_write _ := rfl
  read_write a members agree := by
    have htag := agree tagKey List.mem_cons_self
    have hvalue := agree valueKey (List.mem_cons_of_mem _ List.mem_cons_self)
    rw [List.lookup_cons_self] at htag
    rw [List.lookup_cons, beq_false_of_ne apart, List.lookup_cons_self] at hvalue
    simp only [htag, hvalue, roundtrip]

/-- Objects with exactly these members. -/
def closed (fields : Fields F α) : Codec F α where
  encode a := .obj (fields.write a)
  decode
    | .obj members =>
        if ∀ key ∈ Dict.keys members, key ∈ fields.keys then fields.read members else none
    | _ => none
  roundtrip a := by
    have exact_keys : ∀ key ∈ Dict.keys (fields.write a), key ∈ fields.keys := by
      intro key mem
      rwa [fields.keys_write] at mem
    simp only [if_pos exact_keys]
    exact fields.read_write a _ fun _ _ => rfl

/-- A closed record refuses an object with another member. -/
theorem closed_apart {left : Fields F α} {right : Fields F β} (key : String)
    (other : key ∈ right.keys) (unknown : key ∉ left.keys) (b : β) :
    left.closed.decode (right.closed.encode b) = none := by
  have open_ : ¬ ∀ name ∈ Dict.keys (right.write b), name ∈ left.keys := by
    intro all
    exact unknown (all key (by rw [right.keys_write]; exact other))
  exact if_neg open_

end Fields

end JsonText
