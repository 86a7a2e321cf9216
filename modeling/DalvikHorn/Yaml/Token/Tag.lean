import DalvikHorn.Decimal
import DalvikHorn.Yaml.Cursor
import DalvikHorn.Yaml.Token.Basic

/-!
# Tags, anchors and directives

A tag is a handle, which stands for the start of a name, and the rest of the
name.  An octet can be written as an escape, and a zero one ends the name.
-/

namespace DalvikHorn.Yaml

/-! ## Names of tags -/

/-- Whether a character may stand in the name of a tag.  Between angle brackets some more
may. -/
def isTagChar (bracketed : Bool) (c : Char) : Bool :=
  isWord c || [';', '/', '?', ':', '@', '&', '=', '+', '$', '.', '%', '!', '~', '*', '\'', '(',
    ')'].contains c || (bracketed && (c = ',' || c = '[' || c = ']'))

/-- The number of octets after one that starts the encoding of a character. -/
def trailingOctets? (octet : Nat) : Option Nat :=
  if octet < 0x80 then some 0
  else if octet / 0x20 = 0x06 then some 1
  else if octet / 0x10 = 0x0E then some 2
  else if octet / 0x08 = 0x1E then some 3
  else none

/-- The octets of the name of a tag, when some more have to follow an escaped one. -/
def tagOctets? (pending : Nat) : List Char → Option Octets
  | '%' :: a :: b :: rest => do
      let octet := (← hexDigit? a) * 16 + (← hexDigit? b)
      let pending ←
        if pending = 0 then trailingOctets? octet
        else if octet / 0x40 = 0x02 then some (pending - 1)
        else none
      return UInt8.ofNat octet :: (← tagOctets? pending rest)
  | c :: rest =>
      if c = '%' || 0 < pending then none
      else (tagOctets? 0 rest).map (UInt8.ofNat c.toNat :: ·)
  | [] => if pending = 0 then some [] else none

/-- Reads the name of a tag, which may not be empty unless it has a start. -/
def readTagName (bracketed : Bool) (start : List Char) (cursor : Cursor) :
    Option (Octets × Cursor) := do
  let (name, cursor) := cursor.takeWhile (isTagChar bracketed)
  if start.isEmpty && name.isEmpty then none
  else return (untilZero (← tagOctets? 0 (start.drop 1 ++ name)), cursor)

/-- Reads what may be the handle of a tag: words between two exclamation marks, of which the
second one may be missing. -/
def readTagHandle (cursor : Cursor) : Option (List Char × Cursor) := do
  let cursor ← cursor.skip? '!'
  let (word, cursor) := cursor.takeWhile isWord
  match cursor.skip? '!' with
  | some after => return ('!' :: word ++ ['!'], after)
  | none => return ('!' :: word, cursor)

/-! ## Tags and anchors -/

/-- Reads a tag that gives its whole name between angle brackets. -/
def readBracketedTag (cursor : Cursor) : Option (Token × Cursor) := do
  let (name, cursor) ← readTagName true [] (cursor.advance 2)
  return (.tag "" name, ← cursor.skip? '>')

/-- Reads a tag with a handle.  An exclamation mark alone is a name and no handle. -/
def readHandledTag (cursor : Cursor) : Option (Token × Cursor) := do
  let (handle, cursor) ← readTagHandle cursor
  if 1 < handle.length && handle.getLast? = some '!' then
    let (name, cursor) ← readTagName false [] cursor
    return (.tag (String.ofList handle) name, cursor)
  else
    let (name, cursor) ← readTagName false handle cursor
    return (if name.isEmpty then .tag "" (octetsOf "!") else .tag "!" name, cursor)

/-- Reads a tag. -/
def readTag (inFlow : Bool) (cursor : Cursor) : Option (Token × Cursor) := do
  let bracketed := cursor.rest.take 2 = ['!', '<']
  let (token, cursor) ← if bracketed then readBracketedTag cursor else readHandledTag cursor
  if atGap cursor.rest || (inFlow && cursor.rest.head? = some ',') then return (token, cursor)
  else none

/-- Reads the name after the mark of an anchor or an alias. -/
def readAnchor (cursor : Cursor) : Option (String × Cursor) :=
  let (name, cursor) := cursor.takeWhile isWord
  let ended := cursor.rest.head?.all fun c => isGap c || ['?', ':', ',', ']', '}', '%', '@',
    '\x60'].contains c
  if name.isEmpty || !ended then none else some (String.ofList name, cursor)

/-! ## Directives -/

/-- Reads a number of at most nine digits. -/
def readVersionNumber (cursor : Cursor) : Option (Nat × Cursor) :=
  let (digits, cursor) := cursor.takeWhile Char.isDigit
  if digits.isEmpty || 9 < digits.length then none else some (digitsValue digits, cursor)

/-- Reads the value of a version directive. -/
def readVersion (cursor : Cursor) : Option (Token × Cursor) := do
  let (major, cursor) ← readVersionNumber (cursor.skipWhile isSpacing)
  let (minor, cursor) ← readVersionNumber (← cursor.skip? '.')
  return (.version major minor, cursor)

/-- Reads the value of a directive that declares a tag handle. -/
def readTagDirective (cursor : Cursor) : Option (Token × Cursor) := do
  let (handle, cursor) ← readTagHandle (cursor.skipWhile isSpacing)
  if 1 < handle.length && handle.getLast? ≠ some '!' then none
  else if !cursor.rest.head?.any isSpacing then none
  else
    let (lead, cursor) ← readTagName true [] (cursor.skipWhile isSpacing)
    if atGap cursor.rest then return (.tagHandle (String.ofList handle) lead, cursor) else none

/-- Reads a directive after its mark.  Only a comment may follow it on the line. -/
def readDirective (cursor : Cursor) : Option (Token × Cursor) := do
  let (name, cursor) := cursor.takeWhile isWord
  if !atGap cursor.rest then none
  else
    let (token, cursor) ←
      match String.ofList name with
      | "YAML" => readVersion cursor
      | "TAG" => readTagDirective cursor
      | _ => none
    let cursor := cursor.skipWhile isSpacing
    let cursor := if cursor.rest.head? = some '#' then cursor.skipWhile (!isBreak ·) else cursor
    if cursor.rest.head?.all isBreak then return (token, cursor.next) else none

end DalvikHorn.Yaml
