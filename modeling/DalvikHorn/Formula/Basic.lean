/-!
# Terms and formulas

Clauses are built from terms of three sorts: bit-vectors of a fixed width
(register values), Booleans (labels and location flags) and integers (keys of
the static heap).  A formula is a Boolean term, and may apply a relation to
terms.

Besides the raw nodes this file has the *folding* constructors `Formula.all`,
`Formula.any`, `Formula.negate` and `BvExpr.select`.  They drop neutral
constants, stop at absorbing ones and open one level of nesting, so that the
clauses of a state with many constant flags stay small.
-/

namespace DalvikHorn

/-! ## Operators -/

/-- The sort of a term. -/
inductive TermSort where
  | bool
  | bitVec (width : Nat)
  | int
  deriving DecidableEq, Repr

/-- Binary operators on bit-vectors. -/
inductive BvBinary where
  | add | sub | mul | udiv | urem | and | or | xor | shl | ashr | lshr
  deriving DecidableEq, Repr

/-- Unary operators on bit-vectors. -/
inductive BvUnary where
  | neg | not
  deriving DecidableEq, Repr

/-- Unsigned comparisons of bit-vectors. -/
inductive BvCompare where
  | eq | ult | ule | ugt | uge
  deriving DecidableEq, Repr

/-! ## Syntax -/

/-- Integer terms. -/
inductive IntExpr where
  | lit (value : Int)
  | var (name : String)
  deriving DecidableEq, Repr

mutual

/-- Bit-vector terms.  A literal carries its value as it is, also when it does
not fit into its width. -/
inductive BvExpr where
  | lit (value width : Nat)
  | var (name : String) (width : Nat)
  | unary (op : BvUnary) (operand : BvExpr)
  | binary (op : BvBinary) (left right : BvExpr)
  | ite (condition : Formula) (yes no : BvExpr)

/-- Boolean terms. -/
inductive Formula where
  | const (value : Bool)
  | var (name : String)
  | not (inner : Formula)
  | and (parts : List Formula)
  | or (parts : List Formula)
  | compare (op : BvCompare) (left right : BvExpr)
  | app (relation : String) (args : List Term)

/-- The argument of a relation. -/
inductive Term where
  | bv (expr : BvExpr)
  | bool (formula : Formula)
  | int (expr : IntExpr)

end

instance : Inhabited BvExpr := ⟨.lit 0 0⟩

instance : Inhabited Formula := ⟨.const true⟩

instance : Inhabited Term := ⟨.bool default⟩

/-- An atomic formula: a relation applied to terms. -/
structure Atom where
  relation : String
  args : List Term
  deriving Inhabited

/-- An atom as a formula. -/
def Atom.toFormula (atom : Atom) : Formula :=
  .app atom.relation atom.args

instance : Coe Atom Formula := ⟨Atom.toFormula⟩

instance : Coe BvExpr Term := ⟨Term.bv⟩

instance : Coe Formula Term := ⟨Term.bool⟩

instance : Coe IntExpr Term := ⟨Term.int⟩

/-! ## Words

Values of bit-vectors are kept in words of 128 bits, so a width above 128 acts
like 128. -/

/-- The number of bits of a word. -/
def wordBits : Nat := 128

/-- The number of values of a width. -/
def valueCount (width : Nat) : Nat :=
  Nat.pow 2 (min width wordBits)

/-- The number of values of a word. -/
def wordSize : Nat :=
  valueCount wordBits

/-- The low `width` bits of a value. -/
def truncate (width value : Nat) : Nat :=
  value % valueCount width

/-- The value with all bits set. -/
def allOnes (width : Nat) : Nat :=
  valueCount width - 1

/-- The two's-complement pattern of a signed number. -/
def twosComplement (value : Int) (width : Nat) : Nat :=
  (value % (valueCount width : Int)).toNat

/-! ## Sorts -/

/-- The width of a bit-vector term, read off its leftmost leaf. -/
def BvExpr.width : BvExpr → Nat
  | .lit _ width => width
  | .var _ width => width
  | .unary _ operand => operand.width
  | .binary _ left _ => left.width
  | .ite _ yes _ => yes.width

/-- The sort of a term. -/
def Term.sort : Term → TermSort
  | .bv expr => .bitVec expr.width
  | .bool _ => .bool
  | .int _ => .int

/-- The bit-vector in a term. -/
def Term.bv? : Term → Option BvExpr
  | .bv expr => some expr
  | _ => none

/-- The formula in a term. -/
def Term.bool? : Term → Option Formula
  | .bool formula => some formula
  | _ => none

/-- The number of arguments of an atom. -/
def Atom.arity (atom : Atom) : Nat :=
  atom.args.length

/-- The sorts of the arguments of an atom. -/
def Atom.signature (atom : Atom) : List TermSort :=
  atom.args.map Term.sort

/-! ## Constructors -/

namespace BvExpr

/-- The literal of a signed number. -/
def ofInt (value : Int) (width : Nat) : BvExpr :=
  .lit (twosComplement value width) width

/-- The zero of a width. -/
def zero (width : Nat) : BvExpr :=
  .lit 0 width

/-- The comparison of two terms for equality. -/
def eqTo (left right : BvExpr) : Formula :=
  .compare .eq left right

/-- A choice between two terms, decided at once when its condition is a
constant. -/
def select (condition : Formula) (yes no : BvExpr) : BvExpr :=
  match condition with
  | .const true => yes
  | .const false => no
  | condition => .ite condition yes no

end BvExpr

namespace Formula

/-- The formula that always holds. -/
abbrev tt : Formula := .const true

/-- The formula that never holds. -/
abbrev ff : Formula := .const false

/-- Whether a formula is the constant `true`. -/
def isTrue : Formula → Bool
  | .const value => value
  | _ => false

/-- Whether a formula is the constant `false`. -/
def isFalse : Formula → Bool
  | .const value => !value
  | _ => false

/-- The conjuncts that are left when `true` is dropped and one level of
conjunctions is opened, or nothing when one of the parts is `false`. -/
def conjuncts? : List Formula → Option (List Formula)
  | [] => some []
  | .const true :: rest => conjuncts? rest
  | .const false :: _ => none
  | .and inner :: rest => (conjuncts? rest).map (inner ++ ·)
  | part :: rest => (conjuncts? rest).map (part :: ·)

/-- The disjuncts that are left when `false` is dropped and one level of
disjunctions is opened, or nothing when one of the parts is `true`. -/
def disjuncts? : List Formula → Option (List Formula)
  | [] => some []
  | .const false :: rest => disjuncts? rest
  | .const true :: _ => none
  | .or inner :: rest => (disjuncts? rest).map (inner ++ ·)
  | part :: rest => (disjuncts? rest).map (part :: ·)

/-- The folded conjunction of a list of formulas. -/
def all (parts : List Formula) : Formula :=
  match conjuncts? parts with
  | none => ff
  | some [] => tt
  | some [part] => part
  | some kept => .and kept

/-- The folded disjunction of a list of formulas. -/
def any (parts : List Formula) : Formula :=
  match disjuncts? parts with
  | none => tt
  | some [] => ff
  | some [part] => part
  | some kept => .or kept

/-- The folded conjunction of two formulas. -/
def both (left right : Formula) : Formula :=
  all [left, right]

/-- The folded disjunction of two formulas. -/
def either (left right : Formula) : Formula :=
  any [left, right]

/-- The folded negation: constants are flipped and a double negation is
removed. -/
def negate : Formula → Formula
  | .const value => .const (!value)
  | .not inner => inner
  | other => .not other

end Formula

end DalvikHorn
