/-!
# JSON values

A value keeps what a strict reader needs to know about its text.  Objects keep
their members in order and with repetitions.  Numbers are split into plain
integers of at most 64 bits and all others, which no model uses.  A text can be
well-formed and still hold a value that has no meaning, such as half of a
surrogate pair; such a value is `unreadable`, which is an error only where the
value is used.
-/

namespace DalvikHorn

/-- A JSON value. -/
inductive Json where
  | null
  | bool (value : Bool)
  /-- A numeral without fraction and exponent that fits into 64 bits, signed or unsigned. -/
  | integer (value : Int)
  /-- Any other numeral. -/
  | decimal (numeral : String)
  | string (text : String)
  | array (items : List Json)
  | object (members : List (String × Json))
  /-- A string or a key with half of a surrogate pair, or a number beyond all doubles. -/
  | unreadable
  deriving Inhabited

namespace Json

/-! ## Structure -/

mutual

/-- The number of arrays and objects around the innermost value. -/
def nesting : Json → Nat
  | .array items => nestingItems items + 1
  | .object members => nestingMembers members + 1
  | _ => 0

/-- The largest nesting in an array. -/
def nestingItems : List Json → Nat
  | [] => 0
  | item :: rest => max item.nesting (nestingItems rest)

/-- The largest nesting in an object. -/
def nestingMembers : List (String × Json) → Nat
  | [] => 0
  | (_, value) :: rest => max value.nesting (nestingMembers rest)

end

mutual

/-- Whether a value and all its parts have a meaning. -/
def readable : Json → Bool
  | .array items => readableItems items
  | .object members => readableMembers members
  | .unreadable => false
  | _ => true

/-- Whether all items of an array have a meaning. -/
def readableItems : List Json → Bool
  | [] => true
  | item :: rest => item.readable && readableItems rest

/-- Whether all members of an object have a meaning. -/
def readableMembers : List (String × Json) → Bool
  | [] => true
  | (_, value) :: rest => value.readable && readableMembers rest

end

/-! ## Decoding -/

/-- The Boolean in a value. -/
def bool? : Json → Option Bool
  | .bool value => some value
  | _ => none

/-- The text in a value. -/
def string? : Json → Option String
  | .string text => some text
  | _ => none

/-- The integer in a value, between two bounds. -/
def integer? (low high : Int) : Json → Option Int
  | .integer value => if low ≤ value ∧ value ≤ high then some value else none
  | _ => none

/-- The unsigned 32-bit number in a value. -/
def uint32? (value : Json) : Option UInt32 :=
  (value.integer? 0 (UInt32.size - 1)).map fun n => UInt32.ofNat n.toNat

/-- The unsigned 64-bit number in a value. -/
def uint64? (value : Json) : Option UInt64 :=
  (value.integer? 0 (UInt64.size - 1)).map fun n => UInt64.ofNat n.toNat

/-- The signed 32-bit number in a value. -/
def int32? (value : Json) : Option Int32 :=
  (value.integer? Int32.minValue.toInt Int32.maxValue.toInt).map Int32.ofInt

/-- The signed 64-bit number in a value. -/
def int64? (value : Json) : Option Int64 :=
  (value.integer? Int64.minValue.toInt Int64.maxValue.toInt).map Int64.ofInt

/-- The items of an array, each decoded. -/
def list? {α : Type} (decode : Json → Option α) : Json → Option (List α)
  | .array items => items.mapM decode
  | _ => none

/-- The pair in an array of two items. -/
def pair? {α β : Type} (first : Json → Option α) (second : Json → Option β) :
    Json → Option (α × β)
  | .array [a, b] => do return (← first a, ← second b)
  | _ => none

/-! ## Records

A record is an object with some known keys, of which none may stand twice, or an array of
the fields in order, from which trailing ones may be missing. -/

/-- The value of a key that does not stand twice. -/
def member? (members : List (String × Json)) (name : String) : Option (Option Json) :=
  match members.filter (·.1 == name) with
  | [] => some none
  | [(_, value)] => some (some value)
  | _ => none

/-- The values of the named fields of a record. -/
def fields? (names : List String) : Json → Option (List (Option Json))
  | .object members => names.mapM (member? members)
  | .array items =>
      if items.length ≤ names.length then
        some (names.mapIdx fun i _ => items[i]?)
      else
        none
  | _ => none

/-- A field that has to be present. -/
def required {α : Type} (decode : Json → Option α) (field : Option Json) : Option α :=
  field.bind decode

/-- A field with a default. -/
def withDefault {α : Type} (default : α) (decode : Json → Option α) (field : Option Json) :
    Option α :=
  match field with
  | none => some default
  | some value => decode value

/-- A field that may be absent or `null`. -/
def optional {α : Type} (decode : Json → Option α) (field : Option Json) : Option (Option α) :=
  match field with
  | none => some none
  | some .null => some none
  | some value => (decode value).map some

end Json

end DalvikHorn
