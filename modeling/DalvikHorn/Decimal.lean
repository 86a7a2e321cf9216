/-!
# Numerals

The values of numerals in a radix, and the double that is nearest to a decimal
number, computed exactly with natural numbers.
-/

namespace DalvikHorn

/-! ## Whole numbers -/

/-- The value of a hexadecimal digit. -/
def hexDigit? (c : Char) : Option Nat :=
  if '0' ≤ c ∧ c ≤ '9' then some (c.toNat - '0'.toNat)
  else if 'a' ≤ c ∧ c ≤ 'f' then some (c.toNat - 'a'.toNat + 10)
  else if 'A' ≤ c ∧ c ≤ 'F' then some (c.toNat - 'A'.toNat + 10)
  else none

/-- The value of a digit in a radix up to sixteen. -/
def digit? (radix : Nat) (c : Char) : Option Nat :=
  (hexDigit? c).filter (· < radix)

/-- The value of some digits in a radix, if there are any and all are digits. -/
def numeral? (radix : Nat) (digits : List Char) : Option Nat :=
  if digits.isEmpty then none
  else digits.foldlM (fun value c => (digit? radix c).map (value * radix + ·)) 0

/-- The value of some decimal digits. -/
def digitsValue (digits : List Char) : Nat :=
  digits.foldl (fun value digit => value * 10 + (digit.toNat - '0'.toNat)) 0

/-! ## Doubles -/

/-- A quotient rounded to the nearest whole number, and to the even one of two. -/
def roundHalfEven (numerator denominator : Nat) : Nat :=
  let floor := numerator / denominator
  let twice := 2 * (numerator % denominator)
  if twice < denominator || (twice = denominator && floor % 2 = 0) then floor else floor + 1

/-- The double nearest to a positive quotient, as `m * 2 ^ q`, unless it is infinite.  The
significand `m` has 53 bits, or fewer at the least exponent. -/
def roundToDouble? (numerator denominator : Nat) : Option (Nat × Int) :=
  let low : Int := (numerator.log2 : Int) - denominator.log2 - 53
  let scaled := fun (q : Int) => (numerator * Nat.pow 2 (-q).toNat, denominator * Nat.pow 2 q.toNat)
  let fits := fun (q : Int) => (scaled q).1 < (scaled q).2 * Nat.pow 2 53
  let q := max (if fits low then low else low + 1) (-1074)
  let m := roundHalfEven (scaled q).1 (scaled q).2
  let (m, q) := if m = Nat.pow 2 53 then (Nat.pow 2 52, q + 1) else (m, q)
  if 971 < q then none else if m = 0 then some (0, 0) else some (m, q)

/-- The double nearest to the product of two doubles, unless it is infinite. -/
def multiplyDoubles? (a b : Nat × Int) : Option (Nat × Int) :=
  let exponent := a.2 + b.2
  roundToDouble? (a.1 * b.1 * Nat.pow 2 exponent.toNat) (Nat.pow 2 (-exponent).toNat)

/-- The double nearest to `mantissa * 10 ^ exponent`, unless it is infinite. -/
def nearestDouble? (mantissa : Nat) (exponent : Int) : Option (Nat × Int) :=
  let magnitude := (Nat.toDigits 10 mantissa).length + exponent
  if mantissa = 0 || magnitude < -330 then some (0, 0)
  else if 310 < magnitude then none
  else roundToDouble? (mantissa * Nat.pow 10 exponent.toNat) (Nat.pow 10 (-exponent).toNat)

end DalvikHorn
