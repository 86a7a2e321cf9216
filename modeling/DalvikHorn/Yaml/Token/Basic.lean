import DalvikHorn.Yaml.Tag

/-!
# Tokens of YAML

The tokens are those of the text itself, and the starts and ends of block
collections, which the text shows by its columns.
-/

namespace DalvikHorn.Yaml

/-- A token. -/
inductive Token where
  | version (major minor : Nat)
  /-- The declaration of a tag handle. -/
  | tagHandle (handle : String) (lead : Octets)
  | documentStart
  | documentEnd
  /-- The start of a sequence that is written with one line per entry. -/
  | blockSequence
  /-- The start of a mapping that is written with one line per key. -/
  | blockMapping
  /-- The end of a block collection. -/
  | blockEnd
  | flowSequence
  | flowSequenceEnd
  | flowMapping
  | flowMappingEnd
  /-- The mark before an entry of a block sequence. -/
  | blockEntry
  /-- The mark between the entries of a flow collection. -/
  | flowEntry
  | key
  | value
  | alias (name : String)
  | anchor (name : String)
  | tag (handle : String) (suffix : Octets)
  /-- A scalar.  Only plain ones can be anything but text. -/
  | scalar (plain : Bool) (text : String)
  deriving DecidableEq, Repr

end DalvikHorn.Yaml
