import DalvikHorn.Formula.Basic

/-!
# Variables and atoms of a formula

`vars` lists every occurrence of a variable with the sort that it is used
at, from left to right and with repetitions.  `Formula.atoms` lists the relation
applications that stand under the connectives of a formula; the arguments of a
relation and the operands of a comparison are not searched.
-/

namespace DalvikHorn

mutual

/-- The variables of a bit-vector term. -/
def BvExpr.vars : BvExpr → List (String × TermSort)
  | .lit _ _ => []
  | .var name width => [(name, .bitVec width)]
  | .unary _ operand => operand.vars
  | .binary _ left right => left.vars ++ right.vars
  | .ite condition yes no => condition.vars ++ yes.vars ++ no.vars

/-- The variables of a formula. -/
def Formula.vars : Formula → List (String × TermSort)
  | .const _ => []
  | .var name => [(name, .bool)]
  | .not inner => inner.vars
  | .and parts => Formula.varsList parts
  | .or parts => Formula.varsList parts
  | .compare _ left right => left.vars ++ right.vars
  | .app _ args => Term.varsList args

/-- The variables of a list of formulas. -/
def Formula.varsList : List Formula → List (String × TermSort)
  | [] => []
  | part :: rest => part.vars ++ Formula.varsList rest

/-- The variables of a term. -/
def Term.vars : Term → List (String × TermSort)
  | .bv expr => expr.vars
  | .bool formula => formula.vars
  | .int (.var name) => [(name, .int)]
  | .int (.lit _) => []

/-- The variables of a list of terms. -/
def Term.varsList : List Term → List (String × TermSort)
  | [] => []
  | arg :: rest => arg.vars ++ Term.varsList rest

end

/-- The variables of an atom. -/
def Atom.vars (atom : Atom) : List (String × TermSort) :=
  Term.varsList atom.args

mutual

/-- The atoms under the connectives of a formula. -/
def Formula.atoms : Formula → List Atom
  | .app relation args => [⟨relation, args⟩]
  | .not inner => inner.atoms
  | .and parts => Formula.atomsList parts
  | .or parts => Formula.atomsList parts
  | .const _ => []
  | .var _ => []
  | .compare _ _ _ => []

/-- The atoms of a list of formulas. -/
def Formula.atomsList : List Formula → List Atom
  | [] => []
  | part :: rest => part.atoms ++ Formula.atomsList rest

end

end DalvikHorn
