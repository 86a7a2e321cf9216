import DalvikHorn.Formula.Basic

/-!
# Formulas as text

Every term is written in the concrete form of SMT-LIB: operators stand before
their operands inside parentheses, and a relation without arguments stands
alone.
-/

namespace DalvikHorn

/-- The text of a sort. -/
def TermSort.text : TermSort → String
  | .bool => "Bool"
  | .bitVec width => s!"(_ BitVec {width})"
  | .int => "Int"

/-- The operator symbol of a binary bit-vector operator. -/
def BvBinary.symbol : BvBinary → String
  | .add => "bvadd"
  | .sub => "bvsub"
  | .mul => "bvmul"
  | .udiv => "bvudiv"
  | .urem => "bvurem"
  | .and => "bvand"
  | .or => "bvor"
  | .xor => "bvxor"
  | .shl => "bvshl"
  | .ashr => "bvashr"
  | .lshr => "bvlshr"

/-- The operator symbol of a unary bit-vector operator. -/
def BvUnary.symbol : BvUnary → String
  | .neg => "bvneg"
  | .not => "bvnot"

/-- The symbol of a comparison. -/
def BvCompare.symbol : BvCompare → String
  | .eq => "="
  | .ult => "bvult"
  | .ule => "bvule"
  | .ugt => "bvugt"
  | .uge => "bvuge"

/-- The text of an integer term; a negative literal is the negation of its
absolute value. -/
def IntExpr.text : IntExpr → String
  | .lit value => if value < 0 then s!"(- {value.natAbs})" else s!"{value.natAbs}"
  | .var name => name

/-- An operator or relation before its operands.  Without operands the
parentheses stay. -/
def operatorText (operator : String) (operands : List String) : String :=
  "(" ++ operator ++ String.join (operands.map (" " ++ ·)) ++ ")"

/-- A relation before its arguments, alone when it has none. -/
def applicationText (relation : String) (args : List String) : String :=
  if args.isEmpty then relation else operatorText relation args

mutual

/-- The text of a bit-vector term. -/
def BvExpr.text : BvExpr → String
  | .lit value width => s!"(_ bv{value} {width})"
  | .var name _ => name
  | .unary op operand => operatorText op.symbol [operand.text]
  | .binary op left right => operatorText op.symbol [left.text, right.text]
  | .ite condition yes no => operatorText "ite" [condition.text, yes.text, no.text]

/-- The text of a formula. -/
def Formula.text : Formula → String
  | .const true => "true"
  | .const false => "false"
  | .var name => name
  | .not inner => operatorText "not" [inner.text]
  | .and parts => operatorText "and" (Formula.texts parts)
  | .or parts => operatorText "or" (Formula.texts parts)
  | .compare op left right => operatorText op.symbol [left.text, right.text]
  | .app relation args => applicationText relation (Term.texts args)

/-- The texts of a list of formulas. -/
def Formula.texts : List Formula → List String
  | [] => []
  | part :: rest => part.text :: Formula.texts rest

/-- The text of a term. -/
def Term.text : Term → String
  | .bv expr => expr.text
  | .bool formula => formula.text
  | .int expr => expr.text

/-- The texts of a list of terms. -/
def Term.texts : List Term → List String
  | [] => []
  | arg :: rest => arg.text :: Term.texts rest

end

/-- The text of an atom. -/
def Atom.text (atom : Atom) : String :=
  applicationText atom.relation (Term.texts atom.args)

theorem Formula.texts_eq_map (parts : List Formula) :
    Formula.texts parts = parts.map Formula.text := by
  induction parts with
  | nil => simp [Formula.texts]
  | cons part rest ih => simp [Formula.texts, ih]

theorem Term.texts_eq_map (args : List Term) : Term.texts args = args.map Term.text := by
  induction args with
  | nil => simp [Term.texts]
  | cons arg rest ih => simp [Term.texts, ih]

end DalvikHorn
