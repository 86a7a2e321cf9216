import DalvikHorn.Yaml.Character
import DalvikHorn.Yaml.Scalar

/-!
# Writing YAML

A text is written in the simplest style in which it reads back: as it is, in
single quotes, in double quotes with escapes, or as a literal block if it has
several lines.  Collections are written as blocks, two columns deeper than what
is around them, and sequences at the column of their key.
-/

namespace DalvikHorn.Yaml

/-- How a text is written. -/
inductive TextStyle where
  | plain
  | singleQuoted
  | doubleQuoted
  | literal
  deriving DecidableEq, Repr

namespace TextStyle

/-! ## Which styles a text allows -/

/-- Whether a plain scalar may not start with the first character of a text. -/
def startsWithMark : List Char → Bool
  | [] => false
  | c :: rest =>
      ['#', ',', '[', ']', '{', '}', '&', '*', '!', '|', '>', '\'', '"', '%', '@',
        '\x60'].contains c || ((c = '?' || c = ':' || c = '-') && atGap rest)

/-- Whether a text has the mark of a value or of a comment, where `afterGap` says what is
before it. -/
def hasMark (afterGap : Bool) : List Char → Bool
  | [] => false
  | c :: rest => (c = ':' && atGap rest) || (c = '#' && afterGap) || hasMark (isGap c) rest

/-- Whether a text starts like the mark of a document. -/
def startsLikeDocument (text : List Char) : Bool :=
  text.take 3 = ['-', '-', '-'] || text.take 3 = ['.', '.', '.']

/-- Whether a character with one property is followed by one with another property. -/
def hasPair (p q : Char → Bool) (text : List Char) : Bool :=
  (text.zip text.tail).any fun (a, b) => p a && q b

/-- Whether a text needs escapes: it has a character that cannot be written as it is, or a
space at the end of a line. -/
def needsEscapes (text : List Char) : Bool :=
  text.any (!isPrintable ·) || hasPair (· = ' ') isBreak text

/-- Whether a text can be written as it is. -/
def allowsPlain (text : List Char) : Bool :=
  !needsEscapes text && !text.any isBreak && text.head? ≠ some ' ' && text.getLast? ≠ some ' ' &&
    !startsLikeDocument text && !startsWithMark text &&
    !hasMark (text.head?.any isGap) (text.drop 1)

/-- Whether a text can be written in single quotes. -/
def allowsSingleQuoted (text : List Char) : Bool :=
  !needsEscapes text && !hasPair isBreak (· = ' ') text

/-- Whether a text can be written as a literal block. -/
def allowsLiteral (text : List Char) : Bool :=
  !needsEscapes text && text.getLast? ≠ some ' '

/-- Whether a text would read back as something else. -/
def isAmbiguous (text : List Char) : Bool :=
  Scalar.ofText (String.ofList text) ≠ .string || Scalar.isPadded text

/-- The style of a text. -/
def ofText (text : List Char) : TextStyle :=
  if text.contains '\n' then
    if allowsLiteral text then .literal else .doubleQuoted
  else if !isAmbiguous text && allowsPlain text then .plain
  else if allowsSingleQuoted text then .singleQuoted
  else .doubleQuoted

end TextStyle

/-! ## Texts -/

/-- Spaces up to a column. -/
def margin (column : Nat) : List Char :=
  List.replicate column ' '

/-- The rest of a text in single quotes.  `lineStart` says whether a line has just ended. -/
def writeSingleQuoted (column : Nat) (lineStart : Bool) : List Char → List Char
  | [] => (if lineStart then margin column else []) ++ ['\'']
  | c :: rest =>
      if isBreak c then c :: writeSingleQuoted column true rest
      else
        (if lineStart then margin column else []) ++ (if c = '\'' then ['\''] else []) ++
          c :: writeSingleQuoted column false rest

/-- The letter that stands for a character after a backslash. -/
def escapeLetter? : Char → Option Char
  | '\x00' => some '0'
  | '\x07' => some 'a'
  | '\x08' => some 'b'
  | '\t' => some 't'
  | '\n' => some 'n'
  | '\x0b' => some 'v'
  | '\x0c' => some 'f'
  | '\r' => some 'r'
  | '\x1b' => some 'e'
  | '"' => some '"'
  | '\\' => some '\\'
  | '\x85' => some 'N'
  | '\u2028' => some 'L'
  | '\u2029' => some 'P'
  | _ => none

/-- The digit with a value below sixteen. -/
def hexDigit (value : Nat) : Char :=
  Char.ofNat (if value < 10 then '0'.toNat + value else 'A'.toNat + (value - 10))

/-- The last digits of a number in hexadecimal. -/
def hexDigits (count value : Nat) : List Char :=
  (List.range count).reverse.map fun i => hexDigit (value / Nat.pow 16 i % 16)

/-- A character after a backslash. -/
def escape (c : Char) : List Char :=
  match escapeLetter? c with
  | some letter => [letter]
  | none =>
      if c.toNat ≤ 0xFF then 'x' :: hexDigits 2 c.toNat
      else if c.toNat ≤ 0xFFFF then 'u' :: hexDigits 4 c.toNat
      else 'U' :: hexDigits 8 c.toNat

/-- The rest of a text in double quotes. -/
def writeDoubleQuoted : List Char → List Char
  | [] => ['"']
  | c :: rest =>
      (if !isPrintable c || isBreak c || c = '"' || c = '\\' then '\\' :: escape c else [c]) ++
        writeDoubleQuoted rest

/-- The rest of a text as a literal block.  `lineStart` says whether a line has just ended. -/
def writeLiteral (column : Nat) (lineStart : Bool) : List Char → List Char
  | [] => if lineStart then [] else ['\n']
  | c :: rest =>
      if isBreak c then c :: writeLiteral column true rest
      else (if lineStart then margin column else []) ++ c :: writeLiteral column false rest

/-- The header of a literal block.  It says the indentation if the text does not show it, and
what becomes of the ends of lines after the text. -/
def literalHeader (text : List Char) : List Char :=
  let increment := if text.head?.any (fun c => c = ' ' || isBreak c) then ['2'] else []
  let chomping :=
    match text.reverse with
    | [] => ['-']
    | [last] => if isBreak last then ['+'] else ['-']
    | last :: previous :: _ =>
        if !isBreak last then ['-'] else if isBreak previous then ['+'] else []
  '|' :: increment ++ chomping ++ ['\n']

/-- A text and the end of its line.  Its further lines start at a column. -/
def writeText (column : Nat) (text : List Char) : List Char :=
  match TextStyle.ofText text with
  | .plain => text ++ ['\n']
  | .singleQuoted => '\'' :: writeSingleQuoted column false text ++ ['\n']
  | .doubleQuoted => '"' :: writeDoubleQuoted text ++ ['\n']
  | .literal => literalHeader text ++ writeLiteral column true text

/-! ## Collections -/

/-- A key at a column, before its value on the same line. -/
def writeKey (column : Nat) (key : String) : List Char :=
  margin column ++ key.toList ++ [':']

/-- A key at a column with a value that needs no quotes. -/
def writeField (column : Nat) (key value : String) : List Char :=
  writeKey column key ++ ' ' :: value.toList ++ ['\n']

/-- A key at a column with a sequence of texts. -/
def writeTexts (column : Nat) (key : String) (texts : List String) : List Char :=
  if texts.isEmpty then writeField column key "[]"
  else
    writeKey column key ++ '\n' :: texts.flatMap fun text =>
      margin column ++ ['-', ' '] ++ writeText (column + 2) text.toList

end DalvikHorn.Yaml
