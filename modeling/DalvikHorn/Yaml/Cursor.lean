import DalvikHorn.Yaml.Character

/-!
# Positions in a text

The structure of a text depends on columns, and a key has to end on the line on
which it starts, so a reader keeps track of where it is.  Columns count
characters, but the length of a key is that of its octets.
-/

namespace DalvikHorn.Yaml

/-- A position: the number of octets before it, its line and its column. -/
structure Position where
  offset : Nat := 0
  line : Nat := 0
  column : Nat := 0
  deriving DecidableEq, Repr

/-- The position after a character. -/
def Position.after (position : Position) (c : Char) : Position :=
  if isBreak c then
    { offset := position.offset + c.utf8Size, line := position.line + 1, column := 0 }
  else
    { offset := position.offset + c.utf8Size, line := position.line, column := position.column + 1 }

/-- A position, and the text that starts there. -/
structure Cursor where
  position : Position := {}
  rest : List Char
  deriving DecidableEq, Repr

namespace Cursor

/-- The column of a cursor. -/
def column (cursor : Cursor) : Nat :=
  cursor.position.column

/-- The cursor after the next character. -/
def next (cursor : Cursor) : Cursor :=
  match cursor.rest with
  | [] => cursor
  | c :: rest => { position := cursor.position.after c, rest := rest }

/-- The cursor after some more characters. -/
def advance (cursor : Cursor) : Nat → Cursor
  | 0 => cursor
  | n + 1 => cursor.next.advance n

/-- The next characters as long as they have a property. -/
def takeWhile (cursor : Cursor) (p : Char → Bool) : List Char × Cursor :=
  let taken := cursor.rest.takeWhile p
  (taken, cursor.advance taken.length)

/-- The cursor after the characters that have a property. -/
def skipWhile (cursor : Cursor) (p : Char → Bool) : Cursor :=
  (cursor.takeWhile p).2

/-- The cursor after a character, if it is the next one. -/
def skip? (cursor : Cursor) (c : Char) : Option Cursor :=
  if cursor.rest.head? = some c then some cursor.next else none

end Cursor

end DalvikHorn.Yaml
