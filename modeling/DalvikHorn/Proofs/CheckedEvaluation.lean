import DalvikHorn.Formula.Checked
import DalvikHorn.Proofs.Folding

/-!
# Evaluation with overflow checks

A build with overflow checks panics at a binary operator whose width has no sign
bit, and it does so only when it reaches the operator.  Three facts relate it to
the evaluation without these checks.

* Whenever it does not panic, it gives the same value (`Formula.eval_of_evalChecked`).
* When all widths have a sign bit, it does not panic (`Formula.evalChecked_of_widthsFit`).
* A folded formula gives the outcome of the raw node over the same parts whenever
  that one gives an outcome at all (`Formula.evalChecked_all` and its companions).

The last fact is no equation.  A folded conjunction with a part that is the constant
`false` is this constant, while the raw conjunction first evaluates the parts in front
of it, and one of them may panic.
-/

namespace DalvikHorn

/-! ## Connectives -/

namespace Checked

variable {α β : Type}

theorem bindValue_eq_some_iff {outcome : Checked α} {next : α → Checked β} {value : Option β} :
    outcome.bindValue next = some value ↔
      (outcome = some none ∧ value = none) ∨
        ∃ known, outcome = some (some known) ∧ next known = some value := by
  rcases outcome with _ | _ | known
  · simp [bindValue]
  · simp [bindValue, eq_comm]
  · simp [bindValue]

variable {deciding known : Bool} {outcome : Checked Bool}

/-- A part that has the neutral value can be dropped. -/
theorem connect_neutral (rest : List (Checked Bool)) :
    connect deciding known (some (some !deciding) :: rest) = connect deciding known rest := by
  cases deciding <;> rfl

/-- A part that has the deciding value decides. -/
theorem connect_decided (rest : List (Checked Bool)) :
    connect deciding known (some (some deciding) :: rest) = some (some deciding) := by
  rw [connect, if_pos rfl]

/-- A single part stands for itself. -/
theorem connect_singleton (outcome : Checked Bool) : connect deciding true [outcome] = outcome := by
  rcases outcome with _ | _ | value
  · rfl
  · rfl
  · cases deciding <;> cases value <;> rfl

/-- An inner connective of the same kind can be opened. -/
theorem connect_open (inner rest : List (Checked Bool)) :
    connect deciding known (connect deciding true inner :: rest) =
      connect deciding known (inner ++ rest) := by
  -- a part without a value is remembered by the inner connective until its end
  suffices hopen : ∀ innerKnown,
      connect deciding known (connect deciding innerKnown inner :: rest) =
        connect deciding (known && innerKnown) (inner ++ rest) by
    have h := hopen true
    rwa [Bool.and_true] at h
  induction inner with
  | nil =>
      intro innerKnown
      cases innerKnown with
      | true => rw [Bool.and_true]; exact connect_neutral rest
      | false => rw [Bool.and_false]; rfl
  | cons outcome inner ih =>
      intro innerKnown
      rcases outcome with _ | _ | value
      · rfl
      · have h := ih false
        rw [Bool.and_false] at h
        exact h
      · by_cases hvalue : value = deciding
        · subst hvalue
          rw [connect_decided, connect_decided, List.cons_append, connect_decided]
        · obtain rfl : value = !deciding := Bool.eq_not_of_ne hvalue
          rw [connect_neutral, List.cons_append, connect_neutral]
          exact ih innerKnown

/-- The parts behind a common beginning decide whether two connectives agree. -/
theorem connect_append_congr {first second : List (Checked Bool)}
    (h : ∀ known, connect deciding known first = connect deciding known second)
    (front : List (Checked Bool)) :
    ∀ known, connect deciding known (front ++ first) = connect deciding known (front ++ second) := by
  induction front with
  | nil => exact h
  | cons outcome front ih =>
      intro known
      rcases outcome with _ | _ | value
      · rfl
      · exact ih false
      · rw [List.cons_append, List.cons_append, connect, connect, ih known]

/-- When the last parts decide a connective or panic, so does it with more parts in front. -/
theorem eq_deciding_of_append {rest : List (Checked Bool)}
    (h : ∀ known value, connect deciding known rest = some value → value = some deciding)
    (front : List (Checked Bool)) :
    ∀ known value, connect deciding known (front ++ rest) = some value → value = some deciding := by
  induction front with
  | nil => exact h
  | cons outcome front ih =>
      intro known value hvalue
      rcases outcome with _ | _ | part
      · cases hvalue
      · exact ih false value hvalue
      · by_cases hpart : part = deciding
        · subst hpart
          rw [List.cons_append, connect_decided] at hvalue
          exact (Option.some.inj hvalue).symm
        · obtain rfl : part = !deciding := Bool.eq_not_of_ne hpart
          rw [List.cons_append, connect_neutral] at hvalue
          exact ih known value hvalue

end Checked

/-! ## Folding -/

namespace Formula

open Checked

variable (env : Valuation)

theorem outcomes_append (first second : List Formula) :
    outcomes env (first ++ second) = outcomes env first ++ outcomes env second := by
  induction first with
  | nil => rfl
  | cons part first ih => rw [List.cons_append, outcomes, outcomes, ih, List.cons_append]

/-- The conjuncts that are left have the outcome of all. -/
theorem connect_conjuncts? {parts kept : List Formula} (hkept : conjuncts? parts = some kept) :
    ∀ known, connect false known (outcomes env parts) = connect false known (outcomes env kept) := by
  fun_induction conjuncts? parts generalizing kept with
  | case1 =>
      cases hkept
      exact fun _ => rfl
  | case2 rest ih =>
      intro known
      rw [outcomes, evalChecked]
      exact (connect_neutral _).trans (ih hkept known)
  | case3 => cases hkept
  | case4 inner rest ih =>
      obtain ⟨tail, htail, rfl⟩ := Option.map_eq_some_iff.mp hkept
      intro known
      rw [outcomes, evalChecked, connect_open, outcomes_append]
      exact connect_append_congr (ih htail) (outcomes env inner) known
  | case5 part rest _ _ _ ih =>
      obtain ⟨tail, htail, rfl⟩ := Option.map_eq_some_iff.mp hkept
      rw [outcomes, outcomes]
      exact connect_append_congr (ih htail) [part.evalChecked env]

/-- The disjuncts that are left have the outcome of all. -/
theorem connect_disjuncts? {parts kept : List Formula} (hkept : disjuncts? parts = some kept) :
    ∀ known, connect true known (outcomes env parts) = connect true known (outcomes env kept) := by
  fun_induction disjuncts? parts generalizing kept with
  | case1 =>
      cases hkept
      exact fun _ => rfl
  | case2 rest ih =>
      intro known
      rw [outcomes, evalChecked]
      exact (connect_neutral _).trans (ih hkept known)
  | case3 => cases hkept
  | case4 inner rest ih =>
      obtain ⟨tail, htail, rfl⟩ := Option.map_eq_some_iff.mp hkept
      intro known
      rw [outcomes, evalChecked, connect_open, outcomes_append]
      exact connect_append_congr (ih htail) (outcomes env inner) known
  | case5 part rest _ _ _ ih =>
      obtain ⟨tail, htail, rfl⟩ := Option.map_eq_some_iff.mp hkept
      rw [outcomes, outcomes]
      exact connect_append_congr (ih htail) [part.evalChecked env]

/-- A conjunction of which nothing is left is false or panics. -/
theorem eq_false_of_conjuncts? {parts : List Formula} (hnone : conjuncts? parts = none) :
    ∀ known value, connect false known (outcomes env parts) = some value → value = some false := by
  fun_induction conjuncts? parts with
  | case1 => cases hnone
  | case2 rest ih =>
      rw [outcomes, evalChecked]
      exact eq_deciding_of_append (ih hnone) [some (some true)]
  | case3 rest =>
      intro known value hvalue
      rw [outcomes, evalChecked, connect_decided] at hvalue
      exact (Option.some.inj hvalue).symm
  | case4 inner rest ih =>
      have hrest := ih (Option.map_eq_none_iff.mp hnone)
      intro known value hvalue
      rw [outcomes, evalChecked, connect_open] at hvalue
      exact eq_deciding_of_append hrest (outcomes env inner) known value hvalue
  | case5 part rest _ _ _ ih =>
      rw [outcomes]
      exact eq_deciding_of_append (ih (Option.map_eq_none_iff.mp hnone)) [part.evalChecked env]

/-- A disjunction of which nothing is left is true or panics. -/
theorem eq_true_of_disjuncts? {parts : List Formula} (hnone : disjuncts? parts = none) :
    ∀ known value, connect true known (outcomes env parts) = some value → value = some true := by
  fun_induction disjuncts? parts with
  | case1 => cases hnone
  | case2 rest ih =>
      rw [outcomes, evalChecked]
      exact eq_deciding_of_append (ih hnone) [some (some false)]
  | case3 rest =>
      intro known value hvalue
      rw [outcomes, evalChecked, connect_decided] at hvalue
      exact (Option.some.inj hvalue).symm
  | case4 inner rest ih =>
      have hrest := ih (Option.map_eq_none_iff.mp hnone)
      intro known value hvalue
      rw [outcomes, evalChecked, connect_open] at hvalue
      exact eq_deciding_of_append hrest (outcomes env inner) known value hvalue
  | case5 part rest _ _ _ ih =>
      rw [outcomes]
      exact eq_deciding_of_append (ih (Option.map_eq_none_iff.mp hnone)) [part.evalChecked env]

variable {env} {value : Option Bool}

/-- Whenever a conjunction evaluates, its folded form evaluates to the same value. -/
theorem evalChecked_all {parts : List Formula} (h : (Formula.and parts).evalChecked env = some value) :
    (all parts).evalChecked env = some value := by
  rw [evalChecked] at h
  cases hkept : conjuncts? parts with
  | none =>
      rw [eq_false_of_conjuncts? env hkept true value h, all, hkept]
      simp only [evalChecked]
  | some kept =>
      rw [connect_conjuncts? env hkept] at h
      rw [← h, all, hkept]
      rcases kept with _ | ⟨part, _ | ⟨second, rest⟩⟩
      · simp only [evalChecked, outcomes, connect, if_true, Bool.not_false]
      · exact (connect_singleton _).symm
      · simp only [evalChecked]

/-- Whenever a disjunction evaluates, its folded form evaluates to the same value. -/
theorem evalChecked_any {parts : List Formula} (h : (Formula.or parts).evalChecked env = some value) :
    (any parts).evalChecked env = some value := by
  rw [evalChecked] at h
  cases hkept : disjuncts? parts with
  | none =>
      rw [eq_true_of_disjuncts? env hkept true value h, any, hkept]
      simp only [evalChecked]
  | some kept =>
      rw [connect_disjuncts? env hkept] at h
      rw [← h, any, hkept]
      rcases kept with _ | ⟨part, _ | ⟨second, rest⟩⟩
      · simp only [evalChecked, outcomes, connect, if_true, Bool.not_true]
      · exact (connect_singleton _).symm
      · simp only [evalChecked]

/-- A folded negation has the outcome of the negation. -/
theorem evalChecked_negate (inner : Formula) :
    inner.negate.evalChecked env = (Formula.not inner).evalChecked env := by
  unfold negate
  split
  · simp only [evalChecked, bindValue]
  · next double =>
      -- the two negations cancel in each of the three outcomes
      rw [evalChecked, evalChecked]
      rcases double.evalChecked env with _ | _ | holds
      · rfl
      · rfl
      · simp only [bindValue, Bool.not_not]
  · rfl

end Formula

/-- A folded choice has the outcome of the choice. -/
theorem BvExpr.evalChecked_select (env : Valuation) (condition : Formula) (yes no : BvExpr) :
    (select condition yes no).evalChecked env = (BvExpr.ite condition yes no).evalChecked env := by
  rw [BvExpr.evalChecked]
  unfold select
  split
  · simp only [Formula.evalChecked, Checked.bindValue]
  · simp only [Formula.evalChecked, Checked.bindValue]
  · rw [BvExpr.evalChecked]

/-! ## Agreement with the evaluation without checks -/

section Agreement

open Checked

variable {env : Valuation}

/-- The Kleene value of the parts so far. -/
def knownValue (deciding known : Bool) : Option Bool :=
  if known then some (!deciding) else none

theorem BvBinary.apply_of_applyChecked {width left right : Nat} {op : BvBinary}
    {value : Option Nat} (h : op.applyChecked width left right = some value) :
    value = some (op.apply width left right) := by
  unfold applyChecked at h
  split at h
  · exact (Option.some.inj h).symm
  · cases h

mutual

/-- Where the evaluation of a bit-vector term with checks does not panic, the one without checks
has the same value. -/
theorem BvExpr.eval_of_evalChecked :
    ∀ (expr : BvExpr) {value : Option Nat}, expr.evalChecked env = some value →
      expr.eval env = value
  | .lit literal _, _, h => by
      rw [BvExpr.evalChecked] at h
      rw [BvExpr.eval, Option.some.inj h]
  | .var name _, _, h => by
      rw [BvExpr.evalChecked] at h
      rw [BvExpr.eval, Option.some.inj h]
  | .unary op operand, _, h => by
      rw [BvExpr.evalChecked, bindValue_eq_some_iff] at h
      rw [BvExpr.eval]
      -- either the operand has no value and no operator is applied, or it has one
      obtain ⟨hoperand, rfl⟩ | ⟨word, hoperand, hvalue⟩ := h
      · rw [BvExpr.eval_of_evalChecked operand hoperand, Option.map_none]
      · rw [BvExpr.eval_of_evalChecked operand hoperand, Option.map_some, Option.some.inj hvalue]
  | .binary op left right, _, h => by
      rw [BvExpr.evalChecked, bindValue_eq_some_iff] at h
      rw [BvExpr.eval]
      -- the right operand is asked only if the left one has a value
      obtain ⟨hleft, rfl⟩ | ⟨a, hleft, h⟩ := h
      · rw [BvExpr.eval_of_evalChecked left hleft, Option.bind_none]
      rw [BvExpr.eval_of_evalChecked left hleft, Option.bind_some]
      rw [bindValue_eq_some_iff] at h
      obtain ⟨hright, rfl⟩ | ⟨b, hright, h⟩ := h
      · rw [BvExpr.eval_of_evalChecked right hright, Option.map_none]
      · rw [BvExpr.eval_of_evalChecked right hright, Option.map_some,
          BvBinary.apply_of_applyChecked h]
  | .ite condition yes no, _, h => by
      rw [BvExpr.evalChecked, bindValue_eq_some_iff] at h
      rw [BvExpr.eval]
      -- without a value of the condition no branch is evaluated
      obtain ⟨hcondition, rfl⟩ | ⟨holds, hcondition, h⟩ := h
      · rw [Formula.eval_of_evalChecked condition hcondition]
      rw [Formula.eval_of_evalChecked condition hcondition]
      cases holds with
      | true => exact BvExpr.eval_of_evalChecked yes h
      | false => exact BvExpr.eval_of_evalChecked no h

/-- Where the evaluation of a formula with checks does not panic, the one without checks has the
same truth value. -/
theorem Formula.eval_of_evalChecked :
    ∀ (formula : Formula) {value : Option Bool}, formula.evalChecked env = some value →
      formula.eval env = value
  | .const literal, _, h => by
      rw [Formula.evalChecked] at h
      rw [Formula.eval, Option.some.inj h]
  | .var name, _, h => by
      rw [Formula.evalChecked] at h
      rw [Formula.eval, Option.some.inj h]
  | .not inner, _, h => by
      rw [Formula.evalChecked, bindValue_eq_some_iff] at h
      rw [Formula.eval]
      obtain ⟨hinner, rfl⟩ | ⟨holds, hinner, hvalue⟩ := h
      · rw [Formula.eval_of_evalChecked inner hinner, Option.map_none]
      · rw [Formula.eval_of_evalChecked inner hinner, Option.map_some, Option.some.inj hvalue]
  | .and parts, _, h => by
      rw [Formula.evalChecked] at h
      -- nothing is unknown and nothing decided before the first part
      rw [Formula.eval, ← Formula.evalAll_of_outcomes parts h, knownValue, if_pos rfl]
      exact (true_kleeneAnd _).symm
  | .or parts, _, h => by
      rw [Formula.evalChecked] at h
      rw [Formula.eval, ← Formula.evalAny_of_outcomes parts h, knownValue, if_pos rfl]
      exact (false_kleeneOr _).symm
  | .compare op left right, _, h => by
      rw [Formula.evalChecked, bindValue_eq_some_iff] at h
      rw [Formula.eval]
      obtain ⟨hleft, rfl⟩ | ⟨a, hleft, h⟩ := h
      · rw [BvExpr.eval_of_evalChecked left hleft, Option.bind_none]
      rw [BvExpr.eval_of_evalChecked left hleft, Option.bind_some]
      rw [bindValue_eq_some_iff] at h
      obtain ⟨hright, rfl⟩ | ⟨b, hright, hvalue⟩ := h
      · rw [BvExpr.eval_of_evalChecked right hright, Option.map_none]
      · rw [BvExpr.eval_of_evalChecked right hright, Option.map_some, Option.some.inj hvalue]
  | .app _ _, _, h => by
      rw [Formula.evalChecked] at h
      rw [Formula.eval, Option.some.inj h]

/-- Where the conjunction of the parts so far and of a list does not panic, it has the Kleene
value. -/
theorem Formula.evalAll_of_outcomes :
    ∀ (parts : List Formula) {known : Bool} {value : Option Bool},
      connect false known (Formula.outcomes env parts) = some value →
        kleeneAnd (knownValue false known) (Formula.evalAll env parts) = value
  | [], known, _, h => by
      rw [Formula.evalAll, kleeneAnd_true, ← Option.some.inj h, knownValue]
  | part :: rest, known, value, h => by
      rw [Formula.outcomes] at h
      rw [Formula.evalAll]
      rcases hpart : part.evalChecked env with _ | _ | _ | _
      · rw [hpart] at h
        cases h
      · rw [hpart] at h
        -- from here on the value is unknown, whatever it was so far
        have hrest := Formula.evalAll_of_outcomes rest h
        rw [Formula.eval_of_evalChecked part hpart, ← kleeneAnd_assoc, ← hrest]
        cases known <;> rfl
      · rw [hpart, connect_decided] at h
        rw [Formula.eval_of_evalChecked part hpart, false_kleeneAnd, kleeneAnd_false]
        exact Option.some.inj h
      · rw [hpart] at h
        rw [Formula.eval_of_evalChecked part hpart, true_kleeneAnd]
        exact Formula.evalAll_of_outcomes rest h

/-- Where the disjunction of the parts so far and of a list does not panic, it has the Kleene
value. -/
theorem Formula.evalAny_of_outcomes :
    ∀ (parts : List Formula) {known : Bool} {value : Option Bool},
      connect true known (Formula.outcomes env parts) = some value →
        kleeneOr (knownValue true known) (Formula.evalAny env parts) = value
  | [], known, _, h => by
      rw [Formula.evalAny, kleeneOr_false, ← Option.some.inj h, knownValue]
  | part :: rest, known, value, h => by
      rw [Formula.outcomes] at h
      rw [Formula.evalAny]
      -- the part aborts, has no value, is false, or is true
      rcases hpart : part.evalChecked env with _ | _ | _ | _
      · rw [hpart] at h
        cases h
      · rw [hpart] at h
        have hrest := Formula.evalAny_of_outcomes rest h
        rw [Formula.eval_of_evalChecked part hpart, ← kleeneOr_assoc, ← hrest]
        cases known <;> rfl
      · rw [hpart] at h
        rw [Formula.eval_of_evalChecked part hpart, false_kleeneOr]
        exact Formula.evalAny_of_outcomes rest h
      · -- a true part decides, and the parts behind it are not evaluated
        rw [hpart, connect_decided] at h
        rw [Formula.eval_of_evalChecked part hpart, true_kleeneOr, kleeneOr_true]
        exact Option.some.inj h

end

end Agreement

/-! ## Evaluation without panic -/

section Totality

open Checked

variable {env : Valuation}

/-- What follows a value is only reached when there is one. -/
theorem Checked.isSome_bindValue {α β : Type} {outcome : Checked α} {next : α → Checked β}
    (houtcome : outcome.isSome = true) (hnext : ∀ value, (next value).isSome = true) :
    (outcome.bindValue next).isSome = true := by
  rcases outcome with _ | _ | value
  · cases houtcome
  · rfl
  · exact hnext value

/-- A connective does not panic when none of its parts does. -/
theorem Checked.isSome_connect {deciding : Bool} {outcomes : List (Checked Bool)}
    (h : ∀ outcome ∈ outcomes, outcome.isSome = true) :
    ∀ known, (connect deciding known outcomes).isSome = true := by
  induction outcomes with
  | nil => exact fun _ => rfl
  | cons outcome rest ih =>
      have hrest := ih fun other hother => h other (List.mem_cons_of_mem _ hother)
      intro known
      rcases outcome with _ | _ | value
      · exact absurd (h none List.mem_cons_self) Bool.false_ne_true
      · exact hrest false
      · rw [connect]
        split
        · rfl
        · exact hrest known

mutual

/-- A bit-vector term does not panic when all its operators have a width with a sign bit. -/
theorem BvExpr.isSome_evalChecked :
    ∀ expr : BvExpr, expr.WidthsFit → (expr.evalChecked env).isSome = true
  | .lit _ _, _ => by rw [BvExpr.evalChecked, Option.isSome_some]
  | .var _ _, _ => by rw [BvExpr.evalChecked, Option.isSome_some]
  | .unary op operand, h => by
      rw [BvExpr.WidthsFit] at h
      rw [BvExpr.evalChecked]
      exact isSome_bindValue (BvExpr.isSome_evalChecked operand h) fun _ => rfl
  | .binary op left right, h => by
      rw [BvExpr.WidthsFit] at h
      rw [BvExpr.evalChecked]
      -- the operands evaluate, so only the width of the operator is left
      refine isSome_bindValue (BvExpr.isSome_evalChecked left h.2.1) fun a => ?_
      refine isSome_bindValue (BvExpr.isSome_evalChecked right h.2.2) fun b => ?_
      rw [BvBinary.applyChecked, if_pos h.1, Option.isSome_some]
  | .ite condition yes no, h => by
      rw [BvExpr.WidthsFit] at h
      rw [BvExpr.evalChecked]
      refine isSome_bindValue (Formula.isSome_evalChecked condition h.1) fun holds => ?_
      -- only the branch the condition selects is evaluated
      cases holds with
      | true => exact BvExpr.isSome_evalChecked yes h.2.1
      | false => exact BvExpr.isSome_evalChecked no h.2.2

/-- A formula does not panic when all its operators have a width with a sign bit. -/
theorem Formula.isSome_evalChecked :
    ∀ formula : Formula, formula.WidthsFit → (formula.evalChecked env).isSome = true
  | .const _, _ => by rw [Formula.evalChecked, Option.isSome_some]
  | .var _, _ => by rw [Formula.evalChecked, Option.isSome_some]
  | .not inner, h => by
      rw [Formula.WidthsFit] at h
      rw [Formula.evalChecked]
      exact isSome_bindValue (Formula.isSome_evalChecked inner h) fun _ => rfl
  | .and parts, h => by
      rw [Formula.WidthsFit] at h
      rw [Formula.evalChecked]
      exact isSome_connect (Formula.isSome_outcomes parts h) true
  | .or parts, h => by
      rw [Formula.WidthsFit] at h
      rw [Formula.evalChecked]
      exact isSome_connect (Formula.isSome_outcomes parts h) true
  | .compare op left right, h => by
      rw [Formula.WidthsFit] at h
      rw [Formula.evalChecked]
      refine isSome_bindValue (BvExpr.isSome_evalChecked left h.1) fun a => ?_
      exact isSome_bindValue (BvExpr.isSome_evalChecked right h.2) fun _ => rfl
  | .app _ _, _ => by rw [Formula.evalChecked, Option.isSome_some]

/-- No formula of a list panics when all their operators have a width with a sign bit. -/
theorem Formula.isSome_outcomes :
    ∀ parts : List Formula, Formula.AllWidthsFit parts →
      ∀ outcome ∈ Formula.outcomes env parts, outcome.isSome = true
  | [], _, outcome, hmem => by
      rw [Formula.outcomes] at hmem
      cases hmem
  | part :: rest, h, outcome, hmem => by
      rw [Formula.AllWidthsFit] at h
      rw [Formula.outcomes, List.mem_cons] at hmem
      obtain rfl | hrest := hmem
      · exact Formula.isSome_evalChecked part h.1
      · exact Formula.isSome_outcomes rest h.2 outcome hrest

end

/-- With widths that have a sign bit both evaluations are the same. -/
theorem Formula.evalChecked_of_widthsFit {formula : Formula} (h : formula.WidthsFit) :
    formula.evalChecked env = some (formula.eval env) := by
  obtain ⟨value, hvalue⟩ : ∃ value, formula.evalChecked env = some value :=
    Option.isSome_iff_exists.mp (formula.isSome_evalChecked h)
  rw [hvalue, Formula.eval_of_evalChecked formula hvalue]

end Totality

end DalvikHorn
