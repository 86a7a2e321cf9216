import DalvikHorn.Decimal

/-!
# What a plain scalar means

A plain scalar is nothing, a truth value, a number or text, and its characters
decide which.  Whole numbers may be decimal, hexadecimal, octal or binary; a
decimal one with leading zeros is text.
-/

namespace DalvikHorn.Yaml

/-- A number that is not whole: a double, as `m * 2 ^ q` and its sign. -/
inductive FloatValue where
  | finite (negative : Bool) (significand : Nat) (exponent : Int)
  | infinite (negative : Bool)
  | notANumber
  deriving DecidableEq, Repr

/-- The meaning of a plain scalar. -/
inductive Scalar where
  | null
  | bool (value : Bool)
  /-- A whole number that fits into 64 bits, with a sign or without. -/
  | integer (value : Int)
  /-- A whole number that fits into 128 bits only. -/
  | wide
  | float (value : FloatValue)
  | string
  deriving DecidableEq, Repr

namespace Scalar

/-! ## Words -/

/-- Whether a word stands for nothing. -/
def isNull (text : List Char) : Bool :=
  ["null", "Null", "NULL", "~"].contains (String.ofList text)

/-- The truth value of a word. -/
def bool? (text : List Char) : Option Bool :=
  match String.ofList text with
  | "true" | "True" | "TRUE" => some true
  | "false" | "False" | "FALSE" => some false
  | _ => none

/-! ## Whole numbers -/

/-- A text without a sign. -/
def dropSign : List Char → List Char
  | '+' :: rest => rest
  | '-' :: rest => rest
  | text => text

/-- Whether a text has only digits, but a leading zero, so that it is no number. -/
def isPadded (text : List Char) : Bool :=
  match dropSign text with
  | '0' :: rest => !rest.isEmpty && rest.all Char.isDigit
  | _ => false

/-- The value of digits with a mark of their radix. -/
def radixed? : List Char → Option Nat
  | '0' :: 'x' :: digits => numeral? 16 digits
  | '0' :: 'o' :: digits => numeral? 8 digits
  | '0' :: 'b' :: digits => numeral? 2 digits
  | _ => none

/-- The value of a numeral without a sign. -/
def unsigned? (text : List Char) : Option Nat :=
  (radixed? text).or (if isPadded text then none else numeral? 10 text)

/-- The value of a whole number. -/
def integer? : List Char → Option Int
  | '+' :: rest => (unsigned? rest).map Int.ofNat
  | '-' :: rest => (unsigned? rest).map fun value => -(value : Int)
  | text => (unsigned? text).map Int.ofNat

/-- The whole number of a text, by its size. -/
def ofInteger? (text : List Char) : Option Scalar :=
  match integer? text with
  | none => none
  | some value =>
      let magnitude := value.natAbs
      let limit := if value < 0 then Nat.pow 2 63 + 1 else Nat.pow 2 64
      let wideLimit := if value < 0 then Nat.pow 2 127 + 1 else Nat.pow 2 128
      if magnitude < limit then some (.integer value)
      else if magnitude < wideLimit then some .wide
      else none

/-! ## Other numbers -/

/-- The exponent of a decimal number: nothing, or a mark, a sign and digits. -/
def exponent? : List Char → Option Int
  | [] => some 0
  | mark :: rest =>
      if mark = 'e' || mark = 'E' then
        match rest with
        | '-' :: digits => (numeral? 10 digits).map fun value => -(value : Int)
        | '+' :: digits => (numeral? 10 digits).map Int.ofNat
        | digits => (numeral? 10 digits).map Int.ofNat
      else none

/-- The decimal number of a text without a sign: digits, at most one point among them, and an
exponent. -/
def decimal? (text : List Char) : Option (Nat × Int) := do
  let whole := text.takeWhile Char.isDigit
  let rest := text.dropWhile Char.isDigit
  let (fraction, rest) :=
    match rest with
    | '.' :: rest => (rest.takeWhile Char.isDigit, rest.dropWhile Char.isDigit)
    | _ => ([], rest)
  let mantissa ← numeral? 10 (whole ++ fraction)
  return (mantissa, (← exponent? rest) - fraction.length)

/-- The double of a text without a sign.  A number that is too large is none. -/
def finite? (negative : Bool) (text : List Char) : Option FloatValue := do
  let (mantissa, exponent) ← decimal? text
  let (significand, exponent) ← nearestDouble? mantissa exponent
  return .finite (negative && significand ≠ 0) significand exponent

/-- Whether a word stands for infinity. -/
def isInfinite (text : List Char) : Bool :=
  [".inf", ".Inf", ".INF"].contains (String.ofList text)

/-- The number of a text that need not be whole. -/
def float? (text : List Char) : Option FloatValue :=
  if [".nan", ".NaN", ".NAN"].contains (String.ofList text) then some .notANumber
  else
    let (negative, unsigned) :=
      match text with
      | '-' :: rest => (true, rest)
      | '+' :: rest => (false, rest)
      | text => (false, text)
    if isInfinite unsigned then some (.infinite negative) else finite? negative unsigned

/-! ## Meanings -/

/-- The meaning of a plain scalar. -/
def ofText (text : String) : Scalar :=
  let characters := text.toList
  if characters.isEmpty || isNull characters then .null
  else
    match bool? characters, ofInteger? characters with
    | some value, _ => .bool value
    | none, some number => number
    | none, none =>
        match if isPadded characters then none else float? characters with
        | some value => .float value
        | none => .string

end Scalar

end DalvikHorn.Yaml
