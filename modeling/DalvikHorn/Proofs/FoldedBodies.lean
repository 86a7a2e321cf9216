import DalvikHorn.Proofs.CheckedEvaluation
import DalvikHorn.Proofs.LibraryHandlers
import DalvikHorn.Proofs.LosslessLifts

/-!
# Folded formulas and dropped clauses

The folding constructors drop constants, open one level of nesting, let a single
part stand alone and remove double negations.  None of this can be seen from
outside: under every valuation, also one that leaves names unbound, a folded
formula has the same value as the raw node over the same parts, or none if that
has none.

* `folding_keeps_values`: this for all folding constructors and for the bodies of
  clauses, and what follows for a clause that an emission drops.
* `derivable_ofClauses_iff`: what is dropped is not missed.

A formula that has been folded to `false` is the constant itself, so a clause is
dropped for its shape only.  That its body is false under every valuation, and
holds for no relations at all, is due to the agreement of the values.

In a build with overflow checks the raw node can panic where the folded formula
does not, since folding drops parts.  There the agreement is `CheckedFolding`: the
folded formula follows the raw node wherever that one has an outcome.
-/

namespace DalvikHorn

/-! ## Bodies -/

namespace Clause

variable {clause : Clause}

/-- The folded body has the value of the conjunction of its parts. -/
theorem eval_bodyFormula (env : Valuation) :
    clause.bodyFormula.eval env = (Formula.and clause.body).eval env := by
  rw [bodyFormula, Formula.eval_all, Formula.eval]

/-- The body of a clause that derives nothing is false under every valuation. -/
theorem eval_body_of_isVacuous (h : clause.isVacuous = true) (env : Valuation) :
    (Formula.and clause.body).eval env = some false := by
  rw [← eval_bodyFormula]
  exact Formula.eval_of_isFalse env h

/-- No relations make the body of a clause hold that derives nothing. -/
theorem not_holds_of_isVacuous (h : clause.isVacuous = true) (facts : Fact → Prop)
    (env : Valuation) : ¬ ∀ part ∈ clause.body, part.Holds facts env := by
  intro hbody
  have hfalse := eval_body_of_isVacuous h env
  rw [Formula.eval, Formula.evalAll_eq_false_iff] at hfalse
  obtain ⟨part, hpart, hvalue⟩ := hfalse
  have hholds := (Formula.holds_iff_of_eval part hvalue).mp (hbody part hpart)
  cases hholds

end Clause

/-! ## Emissions -/

namespace Emission

variable {clauses : List Clause} {clause : Clause}

theorem mem_ofClauses_iff :
    clause ∈ (ofClauses clauses).clauses ↔ clause ∈ clauses ∧ clause.isVacuous = false := by
  rw [ofClauses, List.mem_filter, Bool.not_eq_true']

/-- A clause that an emission drops is one that derives nothing. -/
theorem isVacuous_of_dropped (hmem : clause ∈ clauses)
    (hdropped : clause ∉ (ofClauses clauses).clauses) : clause.isVacuous = true := by
  rw [← Bool.not_eq_false]
  exact fun hkept => hdropped (mem_ofClauses_iff.mpr ⟨hmem, hkept⟩)

end Emission

/-- Whatever clauses derive they still derive when those are dropped that derive nothing. -/
theorem derivable_ofClauses_iff {clauses : List Clause} {fact : Fact} :
    Derivable (Emission.ofClauses clauses).clauses fact ↔ Derivable clauses fact := by
  refine ⟨.of_subset fun _ => Emission.mem_of_mem_ofClauses, fun h => h.least ?_⟩
  intro clause hclause env fact henv hbody hhead
  by_cases hkept : clause ∈ (Emission.ofClauses clauses).clauses
  · exact derivable_models _ clause hkept env fact henv hbody hhead
  · exact absurd hbody
      (Clause.not_holds_of_isVacuous (Emission.isVacuous_of_dropped hclause hkept) _ env)

/-! ## Overflow checks -/

/-- What folding keeps under a valuation in a build with overflow checks.  A formula that does not
panic there has the value of a build without them, and no formula panics in which all widths have a
sign bit. -/
structure CheckedFolding (env : Valuation) : Prop where
  all : ∀ parts value, (Formula.and parts).evalChecked env = some value →
    (Formula.all parts).evalChecked env = some value
  any : ∀ parts value, (Formula.or parts).evalChecked env = some value →
    (Formula.any parts).evalChecked env = some value
  both : ∀ (left right : Formula) value, (Formula.and [left, right]).evalChecked env = some value →
    (left.both right).evalChecked env = some value
  either : ∀ (left right : Formula) value,
    (Formula.or [left, right]).evalChecked env = some value →
      (left.either right).evalChecked env = some value
  negate : ∀ inner : Formula, inner.negate.evalChecked env = (Formula.not inner).evalChecked env
  select : ∀ condition yes no,
    (BvExpr.select condition yes no).evalChecked env =
      (BvExpr.ite condition yes no).evalChecked env
  body : ∀ (clause : Clause) value, (Formula.and clause.body).evalChecked env = some value →
    clause.bodyFormula.evalChecked env = some value
  dropped : ∀ (clauses : List Clause), ∀ clause ∈ clauses,
    clause ∉ (Emission.ofClauses clauses).clauses →
      ∀ value, (Formula.and clause.body).evalChecked env = some value → value = some false
  agrees : ∀ (formula : Formula) value, formula.evalChecked env = some value →
    formula.eval env = value
  evaluates : ∀ formula : Formula, formula.WidthsFit →
    formula.evalChecked env = some (formula.eval env)

theorem checkedFolding (env : Valuation) : CheckedFolding env where
  all _ _ h := Formula.evalChecked_all h
  any _ _ h := Formula.evalChecked_any h
  both _ _ _ h := Formula.evalChecked_all h
  either _ _ _ h := Formula.evalChecked_any h
  negate := Formula.evalChecked_negate
  select := BvExpr.evalChecked_select env
  body clause _ h := Formula.evalChecked_all h
  dropped clauses clause hmem hdropped value h := by
    have hvalue := Formula.eval_of_evalChecked _ h
    have hvacuous := Emission.isVacuous_of_dropped hmem hdropped
    exact hvalue.symm.trans (Clause.eval_body_of_isVacuous hvacuous env)
  agrees formula _ h := formula.eval_of_evalChecked h
  evaluates _ h := Formula.evalChecked_of_widthsFit h

-- a sum without bits panics before the constant behind it decides, unless folding drops the sum
example :
    let sum : BvExpr := .binary .add (.lit 0 0) (.lit 0 0)
    (Formula.and [sum.eqTo sum, .ff]).evalChecked Valuation.empty = none ∧
      (Formula.all [sum.eqTo sum, .ff]).evalChecked Valuation.empty = some (some false) :=
  ⟨rfl, rfl⟩

/-! ## Folding -/

/-- Folding keeps the three-valued meaning: under every valuation the folding constructors have the
value of the raw nodes over the same parts, or none if those have none, and so has the body of a
clause.  A clause that an emission drops has a body that is false under every valuation.  With
overflow checks all this holds wherever the raw node has an outcome. -/
theorem folding_keeps_values (env : Valuation) :
    (∀ parts, (Formula.all parts).eval env = (Formula.and parts).eval env) ∧
    (∀ parts, (Formula.any parts).eval env = (Formula.or parts).eval env) ∧
    (∀ left right : Formula, (left.both right).eval env = (Formula.and [left, right]).eval env) ∧
    (∀ left right : Formula, (left.either right).eval env = (Formula.or [left, right]).eval env) ∧
    (∀ inner : Formula, inner.negate.eval env = (Formula.not inner).eval env) ∧
    (∀ condition yes no,
      (BvExpr.select condition yes no).eval env = (BvExpr.ite condition yes no).eval env) ∧
    (∀ clause : Clause, clause.bodyFormula.eval env = (Formula.and clause.body).eval env) ∧
    (∀ (clauses : List Clause), ∀ clause ∈ clauses,
      clause ∉ (Emission.ofClauses clauses).clauses →
        (Formula.and clause.body).eval env = some false) ∧
    CheckedFolding env := by
  have hall : ∀ parts, (Formula.all parts).eval env = (Formula.and parts).eval env := by
    intro parts
    rw [Formula.eval_all, Formula.eval]
  have hany : ∀ parts, (Formula.any parts).eval env = (Formula.or parts).eval env := by
    intro parts
    rw [Formula.eval_any, Formula.eval]
  refine ⟨hall, hany, fun left right => hall [left, right], fun left right => hany [left, right],
    fun inner => ?_, BvExpr.eval_select env, fun clause => clause.eval_bodyFormula env, ?_,
    checkedFolding env⟩
  · rw [Formula.eval_negate, Formula.eval]
  · intro clauses clause hmem hdropped
    exact Clause.eval_body_of_isVacuous (Emission.isVacuous_of_dropped hmem hdropped) env

/-- A clause whose body folds to `false` behind a relation, whose atom has no value. -/
def deadClause : Clause where
  body := [.app GlobalHeap.objectRelation [], .not (.const true), .and [], .const false]
  head := { relation := GlobalHeap.staticRelation, args := [] }

/-- The clause is dropped, and its body is false although one part of it has no value. -/
theorem folding_keeps_values_dead :
    deadClause ∈ [deadClause, .fact deadClause.head] ∧
      deadClause ∉ (Emission.ofClauses [deadClause, .fact deadClause.head]).clauses ∧
      (Formula.and deadClause.body).eval Valuation.empty = some false := by
  have hdropped : deadClause ∉ (Emission.ofClauses [deadClause, .fact deadClause.head]).clauses := by
    rw [Emission.mem_ofClauses_iff]
    exact fun hkept => Bool.noConfusion hkept.2
  exact ⟨List.mem_cons_self, hdropped,
    (folding_keeps_values Valuation.empty).2.2.2.2.2.2.2.1 _ _ List.mem_cons_self hdropped⟩

end DalvikHorn
