import DalvikHorn.Proofs.LeastModel
import DalvikHorn.Proofs.Words
import Mathlib.Algebra.Group.Int.Defs

/-!
# What terms denote

A term of a width has a meaning of its own, apart from evaluation: a bit-vector
of that width, computed with the operators of fixed-width bit-vectors, and for a
condition a truth value.  This is the meaning that SMT-LIB gives to it.
`BvExpr.denote` is that meaning.

* `eval_eq_denote`: at the widths from 1 to 128, evaluation computes what a term
  denotes, whenever all its parts have the width, no condition applies a relation
  and every variable has a value of its sort.

## Strategy

Evaluation works on natural numbers in words of 128 bits, and takes the width of
an operator from the leftmost leaf below it.  In a term of one width that is the
width itself (`BvExpr.width_of_hasWidth`).  Single operators agree with those of
bit-vectors (`BvUnary.apply_eq`, `BvBinary.apply_eq`, `BvCompare.apply_eq`), and
the rest is an induction over the term and its conditions.
-/

namespace DalvikHorn

/-! ## Terms of one width -/

mutual

/-- All literals and variables of a bit-vector term have a width, all literals fit
into it, and no condition applies a relation. -/
def BvExpr.HasWidth (w : Nat) : BvExpr → Prop
  | .lit value width => width = w ∧ value < 2 ^ w
  | .var _ width => width = w
  | .unary _ operand => operand.HasWidth w
  | .binary _ left right => left.HasWidth w ∧ right.HasWidth w
  | .ite condition yes no => condition.HasWidth w ∧ yes.HasWidth w ∧ no.HasWidth w

/-- All comparisons in a formula are between terms of a width, and no relation is
applied. -/
def Formula.HasWidth (w : Nat) : Formula → Prop
  | .const _ => True
  | .var _ => True
  | .not inner => inner.HasWidth w
  | .and parts => Formula.AllHaveWidth w parts
  | .or parts => Formula.AllHaveWidth w parts
  | .compare _ left right => left.HasWidth w ∧ right.HasWidth w
  | .app _ _ => False

/-- All formulas of a list are over terms of a width. -/
def Formula.AllHaveWidth (w : Nat) : List Formula → Prop
  | [] => True
  | part :: rest => part.HasWidth w ∧ Formula.AllHaveWidth w rest

end

/-- The leftmost leaf has the width that all leaves have. -/
theorem BvExpr.width_of_hasWidth {w : Nat} :
    ∀ expr : BvExpr, expr.HasWidth w → expr.width = w
  | .lit _ _, h => by
      rw [HasWidth] at h
      exact h.1
  | .var _ _, h => by
      rw [HasWidth] at h
      exact h
  | .unary _ operand, h => by
      rw [HasWidth] at h
      exact width_of_hasWidth operand h
  | .binary _ left _, h => by
      rw [HasWidth] at h
      exact width_of_hasWidth left h.1
  | .ite _ yes _, h => by
      rw [HasWidth] at h
      exact width_of_hasWidth yes h.2.1

/-! ## Meanings -/

/-- A comparison of bit-vectors, which are read without a sign. -/
def BvCompare.onWords {w : Nat} (op : BvCompare) (a b : BitVec w) : Bool :=
  match op with
  | .eq => a == b
  | .ult => a.ult b
  | .ule => a.ule b
  | .ugt => b.ult a
  | .uge => b.ule a

theorem BvCompare.apply_eq {w : Nat} (op : BvCompare) (a b : BitVec w) :
    op.apply a.toNat b.toNat = op.onWords a b := by
  cases op with
  | eq => rw [apply, onWords, Bool.eq_iff_iff, beq_iff_eq, beq_iff_eq, BitVec.toNat_inj]
  | _ => rfl

/-- The bit-vector that a valuation gives to a name. -/
def Valuation.word (env : Valuation) (w : Nat) (name : String) : BitVec w :=
  BitVec.ofNat w ((env.bits? name).getD 0)

/-- The truth value that a valuation gives to a name. -/
def Valuation.flag (env : Valuation) (name : String) : Bool :=
  (env.bool? name).getD false

mutual

/-- The bit-vector that a term stands for. -/
def BvExpr.denote (env : Valuation) (w : Nat) : BvExpr → BitVec w
  | .lit value _ => BitVec.ofNat w value
  | .var name _ => env.word w name
  | .unary op operand => op.onWords (operand.denote env w)
  | .binary op left right => op.onWords (left.denote env w) (right.denote env w)
  | .ite condition yes no =>
      if condition.denote env w then yes.denote env w else no.denote env w

/-- The truth value that a formula without relations stands for. -/
def Formula.denote (env : Valuation) (w : Nat) : Formula → Bool
  | .const value => value
  | .var name => env.flag name
  | .not inner => !inner.denote env w
  | .and parts => Formula.denoteAll env w parts
  | .or parts => Formula.denoteAny env w parts
  | .compare op left right => op.onWords (left.denote env w) (right.denote env w)
  | .app _ _ => false

/-- Whether all formulas of a list are true. -/
def Formula.denoteAll (env : Valuation) (w : Nat) : List Formula → Bool
  | [] => true
  | part :: rest => part.denote env w && Formula.denoteAll env w rest

/-- Whether some formula of a list is true. -/
def Formula.denoteAny (env : Valuation) (w : Nat) : List Formula → Bool
  | [] => false
  | part :: rest => part.denote env w || Formula.denoteAny env w rest

end

/-! ## Evaluation -/

section Evaluation

variable {env : Valuation} {w : Nat}

/-- A name with a value of its sort has the bit-vector that it denotes. -/
theorem Valuation.Admits.bits?_eq {vars : List (String × TermSort)} (h : env.Admits vars)
    (hwidth : w ≤ wordBits) {name : String} (hmem : (name, .bitVec w) ∈ vars) :
    env.bits? name = some (env.word w name).toNat := by
  obtain ⟨value, hvalue, hlt⟩ := h.exists_bits hmem
  rw [valueCount_of_le hwidth] at hlt
  rw [word, hvalue, Option.getD_some, BitVec.toNat_ofNat, Nat.mod_eq_of_lt hlt]

theorem Valuation.Admits.bool?_eq {vars : List (String × TermSort)} (h : env.Admits vars)
    {name : String} (hmem : (name, .bool) ∈ vars) : env.bool? name = some (env.flag name) := by
  obtain ⟨value, hvalue⟩ := h.exists_bool hmem
  rw [flag, hvalue, Option.getD_some]

theorem kleeneAnd_some (a b : Bool) : kleeneAnd (some a) (some b) = some (a && b) := by
  cases a <;> rfl

theorem kleeneOr_some (a b : Bool) : kleeneOr (some a) (some b) = some (a || b) := by
  cases a <;> rfl

mutual

/-- A term whose leaves all have a width has the value that it denotes. -/
theorem BvExpr.eval_of_hasWidth (hwidth : w ≤ wordBits) :
    ∀ expr : BvExpr, expr.HasWidth w → env.Admits expr.vars →
      expr.eval env = some (expr.denote env w).toNat
  | .lit value width, h, _ => by
      rw [BvExpr.HasWidth] at h
      rw [BvExpr.eval, BvExpr.denote, BitVec.toNat_ofNat, Nat.mod_eq_of_lt h.2]
  | .var name width, h, hvars => by
      rw [BvExpr.HasWidth] at h
      rw [BvExpr.eval, BvExpr.denote]
      exact hvars.bits?_eq hwidth (by simp [BvExpr.vars, h])
  | .unary op operand, h, hvars => by
      rw [BvExpr.HasWidth] at h
      rw [BvExpr.vars] at hvars
      rw [BvExpr.eval, BvExpr.denote, BvExpr.eval_of_hasWidth hwidth operand h hvars, Option.map_some,
        BvExpr.width_of_hasWidth operand h, BvUnary.apply_eq hwidth]
  | .binary op left right, h, hvars => by
      rw [BvExpr.HasWidth] at h
      rw [BvExpr.vars] at hvars
      rw [BvExpr.eval, BvExpr.denote, BvExpr.eval_of_hasWidth hwidth left h.1 hvars.append.1,
        BvExpr.eval_of_hasWidth hwidth right h.2 hvars.append.2, Option.bind_some, Option.map_some,
        BvExpr.width_of_hasWidth left h.1, BvBinary.apply_eq hwidth]
  | .ite condition yes no, h, hvars => by
      rw [BvExpr.HasWidth] at h
      rw [BvExpr.vars] at hvars
      rw [BvExpr.eval, BvExpr.denote,
        Formula.eval_of_hasWidth hwidth condition h.1 hvars.append.1.append.1]
      -- only the branch that is taken is evaluated
      cases condition.denote env w with
      | true => exact BvExpr.eval_of_hasWidth hwidth yes h.2.1 hvars.append.1.append.2
      | false => exact BvExpr.eval_of_hasWidth hwidth no h.2.2 hvars.append.2

/-- A condition over terms of a width has the truth value that it denotes. -/
theorem Formula.eval_of_hasWidth (hwidth : w ≤ wordBits) :
    ∀ formula : Formula, formula.HasWidth w → env.Admits formula.vars →
      formula.eval env = some (formula.denote env w)
  | .const value, _, _ => by rw [Formula.eval, Formula.denote]
  | .var name, _, hvars => by
      rw [Formula.eval, Formula.denote]
      exact hvars.bool?_eq (by simp [Formula.vars])
  | .not inner, h, hvars => by
      rw [Formula.HasWidth] at h
      rw [Formula.vars] at hvars
      -- a formula of one width is evaluated to its denotation, part by part
      rw [Formula.eval, Formula.denote, Formula.eval_of_hasWidth hwidth inner h hvars, Option.map_some]
  | .and parts, h, hvars => by
      rw [Formula.HasWidth] at h
      rw [Formula.vars] at hvars
      rw [Formula.eval, Formula.denote]
      exact (Formula.evalList_of_hasWidth hwidth parts h hvars).1
  | .or parts, h, hvars => by
      rw [Formula.HasWidth] at h
      rw [Formula.vars] at hvars
      rw [Formula.eval, Formula.denote]
      exact (Formula.evalList_of_hasWidth hwidth parts h hvars).2
  | .compare op left right, h, hvars => by
      rw [Formula.HasWidth] at h
      rw [Formula.vars] at hvars
      rw [Formula.eval, Formula.denote, BvExpr.eval_of_hasWidth hwidth left h.1 hvars.append.1,
        BvExpr.eval_of_hasWidth hwidth right h.2 hvars.append.2, Option.bind_some, Option.map_some,
        BvCompare.apply_eq]
  | .app _ _, h, _ => by
      rw [Formula.HasWidth] at h
      exact h.elim

theorem Formula.evalList_of_hasWidth (hwidth : w ≤ wordBits) :
    ∀ parts : List Formula, Formula.AllHaveWidth w parts →
      env.Admits (Formula.varsList parts) →
        Formula.evalAll env parts = some (Formula.denoteAll env w parts) ∧
          Formula.evalAny env parts = some (Formula.denoteAny env w parts)
  | [], _, _ => by
      rw [Formula.evalAll, Formula.denoteAll, Formula.evalAny, Formula.denoteAny]
      exact ⟨rfl, rfl⟩
  | part :: rest, h, hvars => by
      rw [Formula.AllHaveWidth] at h
      rw [Formula.varsList] at hvars
      have hpart := Formula.eval_of_hasWidth hwidth part h.1 hvars.append.1
      obtain ⟨hall, hany⟩ := Formula.evalList_of_hasWidth hwidth rest h.2 hvars.append.2
      rw [Formula.evalAll, Formula.denoteAll, Formula.evalAny, Formula.denoteAny, hpart, hall,
        hany, kleeneAnd_some, kleeneOr_some]
      exact ⟨rfl, rfl⟩

end

/-- The literal of a signed number is that number modulo the number of values of the width. -/
theorem BvExpr.eval_ofInt (hwidth : w ≤ wordBits) (value : Int) :
    (ofInt value w).eval env = some (value % 2 ^ w).toNat := by
  have hcount : (valueCount w : Int) = 2 ^ w := by
    rw [valueCount_of_le hwidth]
    push_cast
    rfl
  rw [ofInt, BvExpr.eval, twosComplement, hcount]

end Evaluation

/-- Evaluation computes what SMT-LIB says.  At a width from 1 to 128, a term of that width has the
bit-vector that it denotes as its value, a condition over such terms has the truth value that it
denotes, with comparisons that know no sign, and the literal of a signed number has the number
modulo the number of values. -/
theorem eval_eq_denote {w : Nat} (hwidth : 1 ≤ w ∧ w ≤ 128) (env : Valuation) :
    (∀ expr : BvExpr, expr.HasWidth w → env.Admits expr.vars →
      ∃ value, expr.eval env = some value ∧ value < 2 ^ w ∧ value = (expr.denote env w).toNat) ∧
    (∀ formula : Formula, formula.HasWidth w → env.Admits formula.vars →
      formula.eval env = some (formula.denote env w)) ∧
    ∀ value : Int64, (BvExpr.ofInt value.toInt w).eval env = some (value.toInt % 2 ^ w).toNat :=
  ⟨fun expr hexpr hvars =>
      ⟨_, BvExpr.eval_of_hasWidth hwidth.2 expr hexpr hvars, BitVec.isLt _, rfl⟩,
    Formula.eval_of_hasWidth hwidth.2, fun value => BvExpr.eval_ofInt hwidth.2 value.toInt⟩

/-! ## A term with a choice -/

/-- A secret that is at least 100 is shifted by one with its sign, any other one is divided by
zero for a remainder; the quotient by zero is added. -/
def chosenTerm : BvExpr :=
  .binary .add
    (.ite (.and [.var (Names.high 0), .not (.compare .ult (.var (Names.value 0) 8) (.lit 100 8))])
      (.binary .ashr (.var (Names.value 0) 8) (.lit 1 8))
      (.binary .urem (.var (Names.value 0) 8) (.lit 0 8)))
    (.binary .udiv (.var (Names.value 0) 8) (.lit 0 8))

/-- The register holds 200, a secret. -/
def chosenValuation : Valuation :=
  (Valuation.empty.bind (Names.value 0) (.bits 200)).bind (Names.high 0) (.bool true)

/-- The shift copies the sign bit of 200, which gives 228, and the quotient by zero is 255. -/
theorem eval_eq_denote_chosen :
    (1 ≤ 8 ∧ 8 ≤ 128) ∧ chosenTerm.HasWidth 8 ∧ chosenValuation.Admits chosenTerm.vars ∧
      chosenTerm.denote chosenValuation 8 = 227#8 ∧
      ∃ value, chosenTerm.eval chosenValuation = some value ∧ value < 2 ^ 8 ∧
        value = (chosenTerm.denote chosenValuation 8).toNat := by
  have hwidth : chosenTerm.HasWidth 8 := by
    simp [chosenTerm, BvExpr.HasWidth, Formula.HasWidth, Formula.AllHaveWidth]
  have hvars : chosenValuation.Admits chosenTerm.vars := by
    have hvalue : chosenValuation (Names.value 0) = some (.bits 200) := by decide
    have hhigh : chosenValuation (Names.high 0) = some (.bool true) := by decide
    have hfits : (200 : Nat) < valueCount 8 := by decide
    simp [chosenTerm, Valuation.Admits, hvalue, hhigh, Value.HasSort, hfits]
  exact ⟨by decide, hwidth, hvars, by decide +kernel,
    (eval_eq_denote (by decide) chosenValuation).1 chosenTerm hwidth hvars⟩

end DalvikHorn
