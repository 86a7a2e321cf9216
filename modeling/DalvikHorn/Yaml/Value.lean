import DalvikHorn.Yaml.Node
import DalvikHorn.Yaml.Scalar

/-!
# Values of YAML

What a document says, without the way in which it is written: aliases are
replaced by what they stand for, scalars have their meaning, and no mapping has
a key twice.  How deep collections nest and how often aliases are followed is
limited.
-/

namespace DalvikHorn.Yaml

/-- A value. -/
inductive Value where
  | null
  | bool (value : Bool)
  | integer (value : Int)
  | float (value : FloatValue)
  | string (text : String)
  | sequence (items : List Value)
  | mapping (entries : List (Value × Value))
  /-- A value with a tag of its own. -/
  | tagged (tag : String) (value : Value)

namespace Value

/-! ## Equality -/

mutual

/-- Whether two values are the same.  The order of a mapping does not matter. -/
def same : Value → Value → Bool
  | .null, .null => true
  | .bool a, .bool b => a = b
  | .integer a, .integer b => a = b
  | .float a, .float b => a = b
  | .string a, .string b => a = b
  | .sequence a, .sequence b => sameItems a b
  | .mapping a, .mapping b => a.length = b.length && entriesWithin a b
  | .tagged tagA a, .tagged tagB b => tagA = tagB && same a b
  | _, _ => false

/-- Whether two lists of values are the same. -/
def sameItems : List Value → List Value → Bool
  | [], [] => true
  | a :: as, b :: bs => same a b && sameItems as bs
  | _, _ => false

/-- Whether all entries of a mapping are entries of another one. -/
def entriesWithin : List (Value × Value) → List (Value × Value) → Bool
  | [], _ => true
  | (key, value) :: rest, entries =>
      entries.any (fun entry => same key entry.1 && same value entry.2) &&
        entriesWithin rest entries

end

/-! ## Views -/

/-- A value without its tags. -/
def untagged : Value → Value
  | .tagged _ value => untagged value
  | value => value

/-- The text of a value. -/
def string? (value : Value) : Option String :=
  match value.untagged with
  | .string text => some text
  | _ => none

/-- The truth value of a value. -/
def bool? (value : Value) : Option Bool :=
  match value.untagged with
  | .bool b => some b
  | _ => none

/-- The unsigned 32-bit number of a value. -/
def uint32? (value : Value) : Option UInt32 :=
  match value.untagged with
  | .integer n => if 0 ≤ n ∧ n < UInt32.size then some (UInt32.ofNat n.toNat) else none
  | _ => none

/-- The unsigned 64-bit number of a value. -/
def uint64? (value : Value) : Option UInt64 :=
  match value.untagged with
  | .integer n => if 0 ≤ n ∧ n < UInt64.size then some (UInt64.ofNat n.toNat) else none
  | _ => none

/-- The texts of a sequence.  Nothing counts as an empty one. -/
def strings? (value : Value) : Option (List String) :=
  match value.untagged with
  | .sequence items => items.mapM string?
  | .null => some []
  | _ => none

/-- The entries of a mapping. -/
def mapping? (value : Value) : Option (List (Value × Value)) :=
  match value.untagged with
  | .mapping entries => some entries
  | _ => none

/-- What a mapping has under a text. -/
def get? (value : Value) (key : String) : Option Value :=
  (value.mapping?.getD []).findSome? fun (name, entry) =>
    if name.same (.string key) then some entry else none

/-- What a mapping has under some texts, when it may have nothing else and nothing twice.
Nothing counts as an empty mapping. -/
def fields? (names : List String) (value : Value) : Option (List (Option Value)) :=
  match value.untagged with
  | .mapping entries => do
      let named ← entries.mapM fun (key, entry) => (key.string?).map (·, entry)
      if named.all (names.contains ·.1) && (named.map (·.1)).Nodup then
        return names.map fun name => named.lookup name
      else none
  | .null => some (names.map fun _ => none)
  | _ => none

/-! ## Reading nodes -/

/-- How deep collections may nest. -/
def maxDepth : Nat := 128

/-- How often aliases may be followed, for each part of a document. -/
def maxAliasesPerPart : Nat := 100

/-- The value of a plain scalar. -/
def ofPlain (text : String) : Option Value :=
  match Scalar.ofText text with
  | .null => some .null
  | .bool value => some (.bool value)
  | .integer value => some (.integer value)
  | .wide => none
  | .float value => some (.float value)
  | .string => some (.string text)

/-- The value of a whole number that a tag asks for. -/
def ofInteger? (text : String) : Option Value :=
  match Scalar.ofInteger? text.toList with
  | some (.integer value) => some (.integer value)
  | _ => none

/-- The value of a scalar that has no tag. -/
def ofUntagged (plain : Bool) (text : String) : Option Value :=
  if plain then ofPlain text else some (.string text)

/-- The value of a scalar.  A tag of the standard says what its text has to mean. -/
def ofScalar (plain : Bool) (text : String) : Option Tag → Option Value
  | none => ofUntagged plain text
  | some .bool => (Scalar.bool? text.toList).map .bool
  | some .integer => ofInteger? text
  | some .float => (Scalar.float? text.toList).map .float
  | some .null => if Scalar.isNull text.toList then some .null else none
  | some (.own name) => (ofUntagged plain text).map (.tagged name)
  | some .other => some (.string text)

/-- A reading step, which may fail.  It counts the aliases that may still be followed. -/
abbrev ReadValue := StateT Nat Option

/-- A collection with its tag, if that is one of the document's own. -/
def withTag (tag : Option Tag) (value : Value) : Value :=
  match tag with
  | some (.own name) => .tagged name value
  | _ => value

/-- The node that a node stands for. -/
def followAlias (anchored : List (Nat × Node)) : Node → ReadValue Node
  | .alias anchor => do
      match ← get, anchored.lookup anchor with
      | left + 1, some node => set left; return node
      | _, _ => failure
  | node => return node

/-- Reads some entries of a mapping after others. -/
def readEntries (read : Node → ReadValue Value) :
    List (Value × Value) → List (Node × Node) → ReadValue (List (Value × Value))
  | before, [] => return before.reverse
  | before, (key, value) :: rest => do
      let key ← read key
      if before.any (·.1.same key) then failure
      else readEntries read ((key, ← read value) :: before) rest

/-- Reads a node that is no collection. -/
def ofLeaf : Node → ReadValue Value
  | .scalar tag plain text => StateT.lift (ofScalar plain text tag)
  | _ => failure

/-- Reads a node, in which collections may nest so deep. -/
def ofNode (anchored : List (Nat × Node)) : Nat → Node → ReadValue Value
  | 0, node => do ofLeaf (← followAlias anchored node)
  | depth + 1, node => do
      match ← followAlias anchored node with
      | .sequence tag items =>
          (withTag tag ∘ .sequence) <$> items.mapM (ofNode anchored depth)
      | .mapping tag entries =>
          (withTag tag ∘ .mapping) <$> readEntries (ofNode anchored depth) [] entries
      | leaf => ofLeaf leaf

/-- The value of a document. -/
def ofDocument (document : Document) : Option Value :=
  (ofNode document.anchored maxDepth document.root).run' (document.size * maxAliasesPerPart)

/-- The value of a text. -/
def parse (text : String) : Option Value :=
  (Document.parse text).bind ofDocument

end Value

end DalvikHorn.Yaml
