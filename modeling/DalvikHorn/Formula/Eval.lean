import DalvikHorn.Formula.Basic

/-!
# Evaluation

A valuation assigns values to some names.  Evaluation is three-valued: a term
has no value when it depends on an unbound name, on a name bound at another
sort, or on a relation.  Conjunction and disjunction follow Kleene: one decided
part can decide the whole.

Bit-vector operators follow SMT-LIB: arithmetic wraps, division by zero gives
all ones, the remainder by zero gives the dividend, and a shift by the width or
more leaves nothing but copies of the sign.

No bit-vector of SMT-LIB is wider than a word or has no bits, but a term can say
so.  The operators then compute what they compute in a build without overflow
checks, where words are shifted by amounts modulo 128.  What a build with these
checks does there is in `DalvikHorn.Formula.Checked`.
-/

namespace DalvikHorn

/-! ## Operators -/

/-- A unary operator on values. -/
def BvUnary.apply (width value : Nat) : BvUnary → Nat
  | .neg => truncate width (wordSize - value)
  | .not => truncate width (wordSize - 1 - value)

/-- By how many bits a word is shifted. -/
def shiftAmount (amount : Nat) : Nat :=
  amount % wordBits

/-- The number of the highest bit of a width; that of a width without bits wraps. -/
def signBit (width : Nat) : Nat :=
  shiftAmount (width + (wordBits - 1))

/-- The arithmetic right shift: the vacated bits copy the sign. -/
def arithmeticShift (width value amount : Nat) : Nat :=
  let negative := value.testBit (signBit width)
  let moved := shiftAmount amount
  if width ≤ amount then
    if negative then allOnes width else 0
  else if negative then
    value >>> moved ||| (allOnes width - allOnes width >>> moved)
  else
    value >>> moved

/-- A binary operator on values, at the width of its left operand. -/
def BvBinary.apply (width left right : Nat) (op : BvBinary) : Nat :=
  truncate width <|
    match op with
    | .add => left + right
    | .sub => left + wordSize - right
    | .mul => left * right
    | .udiv => if right = 0 then allOnes width else left / right
    | .urem => if right = 0 then left else left % right
    | .and => left &&& right
    | .or => left ||| right
    | .xor => left ^^^ right
    | .shl => if width ≤ right then 0 else left <<< shiftAmount right
    | .ashr => arithmeticShift width left right
    | .lshr => if width ≤ right then 0 else left >>> shiftAmount right

/-- A comparison of values. -/
def BvCompare.apply (left right : Nat) : BvCompare → Bool
  | .eq => left == right
  | .ult => left < right
  | .ule => left ≤ right
  | .ugt => right < left
  | .uge => right ≤ left

/-! ## Valuations -/

/-- The value of a name. -/
inductive Value where
  | bool (value : Bool)
  | bits (value : Nat)
  | int (value : Int)
  deriving DecidableEq, Repr

/-- An assignment of values to some names. -/
abbrev Valuation := String → Option Value

namespace Valuation

/-- The valuation without bindings. -/
def empty : Valuation := fun _ => none

/-- A valuation with one more binding, which hides an earlier one of the same
name. -/
def bind (env : Valuation) (name : String) (value : Value) : Valuation :=
  fun other => if other = name then some value else env other

/-- The value of a name that is bound to a bit-vector. -/
def bits? (env : Valuation) (name : String) : Option Nat :=
  match env name with
  | some (.bits value) => some value
  | _ => none

/-- The value of a name that is bound to a Boolean. -/
def bool? (env : Valuation) (name : String) : Option Bool :=
  match env name with
  | some (.bool value) => some value
  | _ => none

/-- The value of a name that is bound to an integer. -/
def int? (env : Valuation) (name : String) : Option Int :=
  match env name with
  | some (.int value) => some value
  | _ => none

end Valuation

/-! ## Kleene connectives -/

/-- Kleene conjunction. -/
def kleeneAnd : Option Bool → Option Bool → Option Bool
  | some false, _ => some false
  | some true, right => right
  | none, some false => some false
  | none, _ => none

/-- Kleene disjunction. -/
def kleeneOr : Option Bool → Option Bool → Option Bool
  | some true, _ => some true
  | some false, right => right
  | none, some true => some true
  | none, _ => none

/-! ## Terms -/

/-- The value of an integer term. -/
def IntExpr.eval (env : Valuation) : IntExpr → Option Int
  | .lit value => some value
  | .var name => env.int? name

mutual

/-- The value of a bit-vector term. -/
def BvExpr.eval (env : Valuation) : BvExpr → Option Nat
  | .lit value _ => some value
  | .var name _ => env.bits? name
  | .unary op operand => (operand.eval env).map fun value => op.apply operand.width value
  | .binary op left right =>
      (left.eval env).bind fun a => (right.eval env).map fun b => op.apply left.width a b
  | .ite condition yes no =>
      match condition.eval env with
      | none => none
      | some true => yes.eval env
      | some false => no.eval env

/-- The truth value of a formula. -/
def Formula.eval (env : Valuation) : Formula → Option Bool
  | .const value => some value
  | .var name => env.bool? name
  | .not inner => (inner.eval env).map (!·)
  | .and parts => Formula.evalAll env parts
  | .or parts => Formula.evalAny env parts
  | .compare op left right =>
      (left.eval env).bind fun a => (right.eval env).map fun b => op.apply a b
  | .app _ _ => none

/-- The Kleene conjunction of a list of formulas. -/
def Formula.evalAll (env : Valuation) : List Formula → Option Bool
  | [] => some true
  | part :: rest => kleeneAnd (part.eval env) (Formula.evalAll env rest)

/-- The Kleene disjunction of a list of formulas. -/
def Formula.evalAny (env : Valuation) : List Formula → Option Bool
  | [] => some false
  | part :: rest => kleeneOr (part.eval env) (Formula.evalAny env rest)

end

end DalvikHorn
