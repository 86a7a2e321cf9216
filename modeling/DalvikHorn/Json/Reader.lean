import DalvikHorn.Decimal
import DalvikHorn.Json.Basic

/-!
# Reading JSON

The reader follows the grammar strictly: no comments, no trailing commas, no
leading zeros and nothing but white space after the value.
-/

namespace DalvikHorn.Json

/-- Drops the white space of the grammar. -/
def skipSpace (text : List Char) : List Char :=
  text.dropWhile fun c => c == ' ' || c == '\n' || c == '\r' || c == '\t'

/-! ## Strings -/

/-- A piece of a string: a character, or an escaped UTF-16 unit. -/
inductive Piece where
  | char (c : Char)
  | unit (code : Nat)
  deriving DecidableEq, Repr

/-- The value of four hexadecimal digits. -/
def hexUnit? (a b c d : Char) : Option Nat := do
  return (((← hexDigit? a) * 16 + (← hexDigit? b)) * 16 + (← hexDigit? c)) * 16 + (← hexDigit? d)

/-- The character of a one-letter escape. -/
def escaped? : Char → Option Char
  | '"' => some '"'
  | '\\' => some '\\'
  | '/' => some '/'
  | 'b' => some '\x08'
  | 'f' => some '\x0c'
  | 'n' => some '\n'
  | 'r' => some '\r'
  | 't' => some '\t'
  | _ => none

/-- The pieces of a string up to its closing quote, and what follows it. -/
def readPieces : List Char → Option (List Piece × List Char)
  | [] => none
  | '"' :: rest => some ([], rest)
  | '\\' :: 'u' :: a :: b :: c :: d :: rest => do
      let code ← hexUnit? a b c d
      let (pieces, after) ← readPieces rest
      return (.unit code :: pieces, after)
  | '\\' :: letter :: rest => do
      let c ← escaped? letter
      let (pieces, after) ← readPieces rest
      return (.char c :: pieces, after)
  | c :: rest =>
      if c.toNat < 0x20 || c == '\\' then none
      else do
        let (pieces, after) ← readPieces rest
        return (.char c :: pieces, after)

/-- Whether a unit is the first half of a surrogate pair. -/
def isHighSurrogate (code : Nat) : Bool :=
  0xD800 ≤ code && code ≤ 0xDBFF

/-- Whether a unit is the second half of a surrogate pair. -/
def isLowSurrogate (code : Nat) : Bool :=
  0xDC00 ≤ code && code ≤ 0xDFFF

/-- The characters of some pieces, unless one is half of a surrogate pair. -/
def joinPieces : List Piece → Option (List Char)
  | [] => some []
  | .char c :: rest => (joinPieces rest).map (c :: ·)
  | .unit high :: .unit low :: rest =>
      if isHighSurrogate high then
        if isLowSurrogate low then
          (joinPieces rest).map
            (Char.ofNat (0x10000 + (high - 0xD800) * 0x400 + (low - 0xDC00)) :: ·)
        else none
      else if isLowSurrogate high then none
      else (joinPieces (.unit low :: rest)).map (Char.ofNat high :: ·)
  | .unit code :: rest =>
      if isHighSurrogate code || isLowSurrogate code then none
      else (joinPieces rest).map (Char.ofNat code :: ·)

/-- The text of a string after its opening quote, if it has a meaning, and what follows. -/
def readString (text : List Char) : Option (Option String × List Char) :=
  (readPieces text).map fun (pieces, rest) => ((joinPieces pieces).map String.ofList, rest)

/-! ## Numbers -/

/-- The fraction of a number, and what follows it. -/
def readFraction (text : List Char) : Option (List Char × List Char) :=
  match text with
  | '.' :: rest =>
      let digits := rest.takeWhile Char.isDigit
      if digits.isEmpty then none else some (digits, rest.dropWhile Char.isDigit)
  | _ => some ([], text)

/-- The exponent of a number, and what follows it. -/
def readExponent (text : List Char) : Option (Option Int × List Char) :=
  match text with
  | mark :: rest =>
      if mark == 'e' || mark == 'E' then
        let (negative, rest) :=
          match rest with
          | '-' :: rest => (true, rest)
          | '+' :: rest => (false, rest)
          | _ => (false, rest)
        let digits := rest.takeWhile Char.isDigit
        if digits.isEmpty then none
        else
          let value : Int := digitsValue digits
          some (some (if negative then -value else value), rest.dropWhile Char.isDigit)
      else some (none, text)
  | [] => some (none, text)

/-- Appends digits to a number as long as it fits into 64 bits, and returns the others. -/
def appendDigits (number : Nat) : List Char → Nat × List Char
  | [] => (number, [])
  | digit :: rest =>
      let longer := number * 10 + (digit.toNat - '0'.toNat)
      if longer < UInt64.size then appendDigits longer rest else (number, digit :: rest)

/-- Whether `significand * 10 ^ exponent` is infinite as a product of doubles. -/
def isInfiniteProduct (significand exponent : Nat) : Bool :=
  let product? := do
    multiplyDoubles? (← roundToDouble? significand 1) (← roundToDouble? (Nat.pow 10 exponent) 1)
  product?.isNone

/-- Whether a numeral is too large.  Its significand has the digits that fit into 64 bits: it
starts with those of the whole part and goes on with those of the fraction. -/
def isTooLarge (whole fraction : List Char) (exponent : Int) : Bool :=
  let (significand, skipped) := appendDigits 0 whole
  let (significand, ignored) := appendDigits significand fraction
  let exponent := exponent + skipped.length + ignored.length - fraction.length
  significand != 0 && 0 ≤ exponent &&
    (308 < exponent || isInfiniteProduct significand exponent.toNat)

/-- The value of a numeral, given as its sign, digits, fraction and exponent. -/
def numberOfParts (negative : Bool) (whole fraction : List Char) (exponent : Option Int)
    (numeral : String) : Json :=
  let magnitude : Int := digitsValue whole
  let value := if negative then -magnitude else magnitude
  let plain := fraction.isEmpty && exponent.isNone && !(negative && value == 0)
  if plain && Int64.minValue.toInt ≤ value && value < UInt64.size then .integer value
  else if isTooLarge whole fraction (exponent.getD 0) then .unreadable
  else .decimal numeral

/-- A number, and what follows it. -/
def readNumber (text : List Char) : Option (Json × List Char) := do
  let (negative, unsigned) :=
    match text with
    | '-' :: rest => (true, rest)
    | _ => (false, text)
  let whole := unsigned.takeWhile Char.isDigit
  if whole.isEmpty || (whole.head? == some '0' && 1 < whole.length) then none
  let (fraction, rest) ← readFraction (unsigned.dropWhile Char.isDigit)
  let (exponent, rest) ← readExponent rest
  let numeral := String.ofList (text.take (text.length - rest.length))
  return (numberOfParts negative whole fraction exponent numeral, rest)

/-! ## Values -/

/-- What follows a keyword. -/
def skipWord? (word : List Char) (text : List Char) : Option (List Char) :=
  if word.isPrefixOf text then some (text.drop word.length) else none

/-- A string from its content, which needs a meaning. -/
def ofContent : Option String → Json
  | some content => .string content
  | none => .unreadable

/-- An object from its members, whose keys need a meaning. -/
def ofMembers (members : List (Option String × Json)) : Json :=
  match members.mapM fun (key, value) => key.map (·, value) with
  | some named => .object named
  | none => .unreadable

mutual

/-- A value and what follows it.  Every character lets the reader descend at most twice,
so fuel of twice the length is enough. -/
def readValue : Nat → List Char → Option (Json × List Char)
  | 0, _ => none
  | fuel + 1, text =>
      match skipSpace text with
      | [] => none
      | '"' :: rest =>
          (readString rest).map fun (content, after) => (ofContent content, after)
      | '[' :: rest =>
          match skipSpace rest with
          | ']' :: after => some (.array [], after)
          | body => (readItems fuel body).map fun (items, after) => (.array items, after)
      | '{' :: rest =>
          match skipSpace rest with
          | '}' :: after => some (.object [], after)
          | body => (readMembers fuel body).map fun (members, after) => (ofMembers members, after)
      | 'n' :: rest => (skipWord? "ull".toList rest).map (.null, ·)
      | 't' :: rest => (skipWord? "rue".toList rest).map (.bool true, ·)
      | 'f' :: rest => (skipWord? "alse".toList rest).map (.bool false, ·)
      | other => readNumber other

/-- The items of an array up to its end, at least one. -/
def readItems : Nat → List Char → Option (List Json × List Char)
  | 0, _ => none
  | fuel + 1, text =>
      match readValue fuel text with
      | none => none
      | some (item, rest) =>
          match skipSpace rest with
          | ',' :: more => (readItems fuel more).map fun (items, after) => (item :: items, after)
          | ']' :: after => some ([item], after)
          | _ => none

/-- The members of an object up to its end, at least one. -/
def readMembers : Nat → List Char → Option (List (Option String × Json) × List Char)
  | 0, _ => none
  | fuel + 1, text =>
      match skipSpace text with
      | '"' :: rest =>
          match readString rest with
          | none => none
          | some (key, rest) =>
              match skipSpace rest with
              | ':' :: rest =>
                  match readValue fuel rest with
                  | none => none
                  | some (value, rest) =>
                      match skipSpace rest with
                      | ',' :: more =>
                          (readMembers fuel more).map fun (members, after) =>
                            ((key, value) :: members, after)
                      | '}' :: after => some ([(key, value)], after)
                      | _ => none
              | _ => none
      | _ => none

end

/-- Reads a text that holds one value. -/
def parse (text : String) : Option Json :=
  let chars := text.toList
  match readValue (2 * chars.length + 2) chars with
  | some (value, rest) => if (skipSpace rest).isEmpty then some value else none
  | none => none

end DalvikHorn.Json
