import DalvikHorn.Formula.Eval

/-!
# Evaluation with overflow checks

A build with overflow checks computes the sign bit of a width before every binary
operator, also before those that do not need it, and panics when the width has no
such bit: when it is zero, or wider than a word.  Whether an operator is reached
depends on the order of evaluation.  Operands are evaluated from left to right, up
to the first that has no value, and the parts of a connective up to the first that
decides it.

`Formula.eval` is the evaluation of a build without these checks.
-/

namespace DalvikHorn

/-! ## Outcomes -/

/-- The outcome of an evaluation with checks: nothing when it panics, and else the value, if there
is one. -/
abbrev Checked (α : Type) := Option (Option α)

namespace Checked

variable {α β : Type}

/-- Goes on with a value.  Without one the rest is not evaluated. -/
def bindValue (outcome : Checked α) (next : α → Checked β) : Checked β :=
  match outcome with
  | none => none
  | some none => some none
  | some (some value) => next value

/-- The outcome of a connective from those of its parts.  A conjunction is decided by a part that
is false, a disjunction by one that is true; `known` says whether all parts so far have a value. -/
def connect (deciding known : Bool) : List (Checked Bool) → Checked Bool
  | [] => some (if known then some (!deciding) else none)
  | none :: _ => none
  | some none :: rest => connect deciding false rest
  | some (some value) :: rest =>
      if value = deciding then some (some deciding) else connect deciding known rest

end Checked

/-! ## Terms -/

/-- Whether a width has a sign bit within a word. -/
def HasSignBit (width : Nat) : Prop :=
  1 ≤ width ∧ width ≤ wordBits

instance (width : Nat) : Decidable (HasSignBit width) :=
  inferInstanceAs (Decidable (1 ≤ width ∧ width ≤ wordBits))

/-- A binary operator on values, with the check of its width. -/
def BvBinary.applyChecked (width left right : Nat) (op : BvBinary) : Checked Nat :=
  if HasSignBit width then some (some (op.apply width left right)) else none

mutual

/-- The outcome of a bit-vector term. -/
def BvExpr.evalChecked (env : Valuation) : BvExpr → Checked Nat
  | .lit value _ => some (some value)
  | .var name _ => some (env.bits? name)
  | .unary op operand =>
      (operand.evalChecked env).bindValue fun value => some (some (op.apply operand.width value))
  | .binary op left right =>
      (left.evalChecked env).bindValue fun a =>
        (right.evalChecked env).bindValue fun b => op.applyChecked left.width a b
  | .ite condition yes no =>
      (condition.evalChecked env).bindValue fun
        | true => yes.evalChecked env
        | false => no.evalChecked env

/-- The outcome of a formula. -/
def Formula.evalChecked (env : Valuation) : Formula → Checked Bool
  | .const value => some (some value)
  | .var name => some (env.bool? name)
  | .not inner => (inner.evalChecked env).bindValue fun value => some (some !value)
  | .and parts => Checked.connect false true (Formula.outcomes env parts)
  | .or parts => Checked.connect true true (Formula.outcomes env parts)
  | .compare op left right =>
      (left.evalChecked env).bindValue fun a =>
        (right.evalChecked env).bindValue fun b => some (some (op.apply a b))
  | .app _ _ => some none

/-- The outcomes of a list of formulas. -/
def Formula.outcomes (env : Valuation) : List Formula → List (Checked Bool)
  | [] => []
  | part :: rest => part.evalChecked env :: Formula.outcomes env rest

end

mutual

/-- All binary operators of a bit-vector term have a width with a sign bit. -/
def BvExpr.WidthsFit : BvExpr → Prop
  | .lit _ _ => True
  | .var _ _ => True
  | .unary _ operand => operand.WidthsFit
  | .binary _ left right => HasSignBit left.width ∧ left.WidthsFit ∧ right.WidthsFit
  | .ite condition yes no => condition.WidthsFit ∧ yes.WidthsFit ∧ no.WidthsFit

/-- All binary operators in a formula have a width with a sign bit. -/
def Formula.WidthsFit : Formula → Prop
  | .const _ => True
  | .var _ => True
  | .not inner => inner.WidthsFit
  | .and parts => Formula.AllWidthsFit parts
  | .or parts => Formula.AllWidthsFit parts
  | .compare _ left right => left.WidthsFit ∧ right.WidthsFit
  | .app _ _ => True

/-- All binary operators in a list of formulas have a width with a sign bit. -/
def Formula.AllWidthsFit : List Formula → Prop
  | [] => True
  | part :: rest => part.WidthsFit ∧ Formula.AllWidthsFit rest

end

end DalvikHorn
