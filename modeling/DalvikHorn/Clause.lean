import DalvikHorn.Ident
import DalvikHorn.Formula.Text
import DalvikHorn.Formula.Variables

/-!
# Horn clauses and queries

A clause derives its head from the conjunction of its body.  A query asks
whether a condition can hold in the least model of the clauses; it belongs to
one argument register of a call of a sink.
-/

namespace DalvikHorn

/-- A Horn clause. -/
structure Clause where
  body : List Formula
  head : Atom
  deriving Inhabited

namespace Clause

/-- A clause without a body. -/
def fact (head : Atom) : Clause :=
  { body := [], head := head }

variable (clause : Clause)

/-- The folded conjunction of the body. -/
def bodyFormula : Formula :=
  Formula.all clause.body

/-- Whether the body folds to `true`. -/
def isFact : Bool :=
  clause.bodyFormula.isTrue

/-- Whether the body folds to `false`, so that the clause derives nothing. -/
def isVacuous : Bool :=
  clause.bodyFormula.isFalse

/-- The atoms of the body, then the head. -/
def atoms : List Atom :=
  Formula.atomsList clause.body ++ [clause.head]

/-- The atoms of the body that apply a given relation. -/
def bodyAtomsOf (relation : String) : List Atom :=
  (Formula.atomsList clause.body).filter (·.relation == relation)

/-- The variables of the body, then those of the head. -/
def vars : List (String × TermSort) :=
  Formula.varsList clause.body ++ clause.head.vars

/-- The text of a clause. -/
def text : String :=
  let body := clause.bodyFormula
  if body.isTrue then
    "(rule " ++ clause.head.text ++ ")"
  else
    "(rule (=> " ++ body.text ++ " " ++ clause.head.text ++ "))"

end Clause

/-! ## Queries -/

/-- The call that a query belongs to. -/
structure QueryKey where
  owner : ClassId
  method : MethodId
  pc : UInt32
  sink : String
  deriving DecidableEq, Repr

/-- The order of call sites: by class, method, instruction and sink. -/
def QueryKey.compare (left right : QueryKey) : Ordering :=
  (Ord.compare left.owner.toInt right.owner.toInt).then <|
    (Ord.compare left.method.toInt right.method.toInt).then <|
      (Ord.compare left.pc.toNat right.pc.toNat).then <|
        Ord.compare left.sink right.sink

/-- Whether a condition can hold, for one argument of a sink call. -/
structure Query where
  condition : Formula
  key : QueryKey
  register : UInt32
  description : String

/-- The order of queries: by call site, then by register. -/
def Query.le (left right : Query) : Bool :=
  ((left.key.compare right.key).then
    (Ord.compare left.register.toNat right.register.toNat)).isLE

end DalvikHorn
