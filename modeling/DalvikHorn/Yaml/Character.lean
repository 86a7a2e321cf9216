/-!
# Characters of YAML

The classes of characters that the format tells apart.  A carriage return, also
before a line feed, and a next-line character end a line like a line feed, so
`normalizeBreaks` replaces them at the start.  The line and paragraph separators
end lines too, but stay what they are.
-/

namespace DalvikHorn.Yaml

/-- Whether a text may hold a character as it is. -/
def isAllowed (c : Char) : Bool :=
  let code := c.toNat
  code = 0x09 || code = 0x0A || code = 0x0D || (0x20 ≤ code && code ≤ 0x7E) || code = 0x85 ||
    (0xA0 ≤ code && code ≤ 0xFFFD) || 0x10000 ≤ code

/-- The mark that may start a line without a meaning. -/
def byteOrderMark : Char := '\ufeff'

/-- Whether a character can be written without an escape. -/
def isPrintable (c : Char) : Bool :=
  let code := c.toNat
  code = 0x0A || (0x20 ≤ code && code ≤ 0x7E) ||
    (0xA0 ≤ code && code ≤ 0xFFFD && c != byteOrderMark) || 0x10000 ≤ code

/-- Replaces every way to end a line that means a line feed by a line feed. -/
def normalizeBreaks : List Char → List Char
  | [] => []
  | '\r' :: '\n' :: rest => '\n' :: normalizeBreaks rest
  | c :: rest => (if c = '\r' || c = '\x85' then '\n' else c) :: normalizeBreaks rest

/-- Whether a character ends a line. -/
def isBreak (c : Char) : Bool :=
  c = '\n' || c = '\u2028' || c = '\u2029'

/-- Whether a character is a space or a tab. -/
def isSpacing (c : Char) : Bool :=
  c = ' ' || c = '\t'

/-- Whether a character is spacing or ends a line. -/
def isGap (c : Char) : Bool :=
  isSpacing c || isBreak c

/-- Whether a text is at its end, at spacing or at the end of a line. -/
def atGap (text : List Char) : Bool :=
  text.head?.all isGap

/-- Whether a character may stand in the name of an anchor, a tag handle or a directive. -/
def isWord (c : Char) : Bool :=
  c.isAlphanum || c = '_' || c = '-'

/-- Whether a text starts with the mark that starts or the one that ends a document. -/
def atDocumentMark (mark : Char) (text : List Char) : Bool :=
  text.take 3 = [mark, mark, mark] && atGap (text.drop 3)

end DalvikHorn.Yaml
