/-!
# Tags

The name of a tag is a list of octets, which need not encode a text, because
any octet can be written as an escape.  A tag of the standard says what the text
of a scalar has to mean.  A tag whose name starts with an exclamation mark is
one of the document's own and stays with the value.
-/

namespace DalvikHorn.Yaml

/-- The octets of a name. -/
abbrev Octets := List UInt8

/-- The octets that encode a text. -/
def octetsOf (text : String) : Octets :=
  text.toUTF8.toList

/-- The text that some octets encode, if they encode one. -/
def textOf? (octets : Octets) : Option String :=
  String.fromUTF8? ⟨octets.toArray⟩

/-- The octets of a name, which ends before the first zero. -/
def untilZero (octets : Octets) : Octets :=
  octets.takeWhile (· != 0)

/-- A tag. -/
inductive Tag where
  /-- The text of a scalar has to be a truth value. -/
  | bool
  /-- The text of a scalar has to be a whole number. -/
  | integer
  /-- The text of a scalar has to be a number. -/
  | float
  /-- The text of a scalar has to stand for nothing. -/
  | null
  /-- A tag of the document's own. -/
  | own (name : String)
  /-- Another tag, with which a scalar is its text. -/
  | other
  deriving DecidableEq, Repr

namespace Tag

/-- What the names of the standard start with. -/
def standardLead : String := "tag:yaml.org,2002:"

/-- A name without an exclamation mark at its start, unless nothing else is left. -/
def dropMark : List Char → List Char
  | ['!'] => ['!']
  | '!' :: rest => rest
  | name => name

/-- The name by which a tag of the document's own is known: up to two exclamation marks before
it do not count. -/
def ownName (text : String) : String :=
  String.ofList (dropMark (dropMark text.toList))

/-- The tag with a name.  A name that starts with an exclamation mark and is no text gives
none. -/
def ofName? (name : Octets) : Option Tag :=
  if name.head? = some 0x21 then (textOf? name).map fun text => .own (ownName text)
  else if name = octetsOf (standardLead ++ "bool") then some .bool
  else if name = octetsOf (standardLead ++ "int") then some .integer
  else if name = octetsOf (standardLead ++ "float") then some .float
  else if name = octetsOf (standardLead ++ "null") then some .null
  else some .other

end Tag

end DalvikHorn.Yaml
