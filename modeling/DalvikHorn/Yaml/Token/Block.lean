import DalvikHorn.Yaml.Cursor

/-!
# Block scalars

A block scalar is a header and the indented lines after it.  A literal one keeps
the ends of its lines; a folded one joins lines that do not start with spacing.
The header may fix the indentation and say what becomes of the ends of lines
after the text.
-/

namespace DalvikHorn.Yaml

/-! ## Headers -/

/-- What becomes of the ends of lines after the text. -/
inductive Chomping where
  /-- One of them is kept. -/
  | clip
  /-- None of them is kept. -/
  | strip
  /-- All of them are kept. -/
  | keep
  deriving DecidableEq, Repr

/-- The header of a block scalar. -/
structure BlockHeader where
  literal : Bool
  chomping : Chomping := .clip
  /-- By how much the text is indented, if it is said. -/
  increment : Option Nat := none
  deriving DecidableEq, Repr

/-- The mark for what becomes of the ends of lines. -/
def chomping? : Char → Option Chomping
  | '-' => some .strip
  | '+' => some .keep
  | _ => none

/-- The mark for the indentation, which is a digit but not zero. -/
def increment? (c : Char) : Option Nat :=
  if '1' ≤ c ∧ c ≤ '9' then some (c.toNat - '0'.toNat) else none

/-- Reads a header after its first mark.  The marks may come in either order, and only a
comment may follow them on the line. -/
def readHeader (literal : Bool) (cursor : Cursor) : Option (BlockHeader × Cursor) :=
  let mark := fun (c : Cursor) => c.rest.head?
  let (chomping, cursor) :=
    match (mark cursor).bind chomping? with
    | some chomping => (some chomping, cursor.next)
    | none => (none, cursor)
  let (increment, cursor) :=
    match (mark cursor).bind increment? with
    | some increment => (some increment, cursor.next)
    | none => (none, cursor)
  let (chomping, cursor) :=
    match chomping, increment, (mark cursor).bind chomping? with
    | none, some _, some chomping => (some chomping, cursor.next)
    | chomping, _, _ => (chomping, cursor)
  let cursor := cursor.skipWhile isSpacing
  let cursor := if mark cursor = some '#' then cursor.skipWhile (!isBreak ·) else cursor
  if (mark cursor).all isBreak then
    some ({ literal := literal, chomping := chomping.getD .clip, increment := increment },
      cursor.next)
  else
    none

/-! ## Lines -/

/-- What has been read of a block scalar. -/
structure BlockText where
  /-- The text without the end of its last line, latest first. -/
  read : List Char := []
  /-- The end of the last line. -/
  lastBreak : Option Char := none
  /-- The ends of the empty lines after it, latest first. -/
  emptyLines : List Char := []
  /-- Whether the last line starts with spacing. -/
  startsSpaced : Bool := false
  deriving DecidableEq, Repr

namespace BlockText

/-- The text before a further line, which may start with spacing. -/
def startLine (text : BlockText) (literal spaced : Bool) : BlockText :=
  let lineEnd :=
    if !literal && text.lastBreak = some '\n' && !text.startsSpaced && !spaced then
      if text.emptyLines.isEmpty then [' '] else []
    else
      text.lastBreak.toList
  { read := text.emptyLines ++ (lineEnd ++ text.read), startsSpaced := spaced }

/-- The whole text. -/
def finish (text : BlockText) : Chomping → List Char
  | .strip => text.read.reverse
  | .clip => (text.lastBreak.toList ++ text.read).reverse
  | .keep => (text.emptyLines ++ (text.lastBreak.toList ++ text.read)).reverse

end BlockText

/-- Where in a line a block scalar is read. -/
inductive BlockPart where
  /-- In the spaces before the text; the deepest column so far, while the indentation is not
  known. -/
  | margin (deepest : Nat)
  | line
  deriving DecidableEq, Repr

/-- The indentation of a block scalar that does not say it: that of the deepest of its first
lines, but more than that of the collection around it, which ends at column `least`. -/
def detectIndent (least deepest : Nat) : Nat :=
  max deepest (max least 1)

/-- Reads the lines of a block scalar. -/
def readBlockLines (header : BlockHeader) (least : Nat) (indent : Option Nat)
    (part : BlockPart) (text : BlockText) (position : Position) :
    List Char → Option (List Char × Cursor)
  | [] => some (text.finish header.chomping, { position := position, rest := [] })
  | c :: rest =>
      let continue_ := fun indent part text =>
        readBlockLines header least indent part text (position.after c) rest
      match part with
      | .line =>
          if isBreak c then continue_ indent (.margin 0) { text with lastBreak := some c }
          else continue_ indent .line { text with read := c :: text.read }
      | .margin deepest =>
          let inMargin := indent.all (position.column < ·)
          let deepest := max deepest position.column
          if inMargin && c = ' ' then continue_ indent (.margin deepest) text
          else if inMargin && c = '\t' then none
          else if isBreak c then
            continue_ indent (.margin deepest) { text with emptyLines := c :: text.emptyLines }
          else
            let known := indent.getD (detectIndent least deepest)
            if position.column = known then
              let begun := text.startLine header.literal (isSpacing c)
              continue_ (some known) .line { begun with read := c :: begun.read }
            else
              some (text.finish header.chomping, { position := position, rest := c :: rest })

/-- Reads a block scalar after its first mark.  The collection around it is indented to column
`least - 1`, if `least` is not zero. -/
def readBlock (literal : Bool) (least : Nat) (cursor : Cursor) : Option (List Char × Cursor) := do
  let (header, cursor) ← readHeader literal cursor
  let indent := header.increment.map fun increment => (least - 1) + increment
  readBlockLines header least indent (.margin 0) {} cursor.position cursor.rest

end DalvikHorn.Yaml
