import DalvikHorn.Formula.Eval
import DalvikHorn.Proofs.Sorted

/-!
# Evaluation reads the listed variables

`vars` lists the variables of a term by one traversal and `eval` evaluates it by another.
The two see the same variables at the same sorts, although evaluation skips the branch that
is not taken, and one decided part decides a whole conjunction or disjunction.

* `eval_depends_on_vars`: the listed variables determine the value, further bindings never
  change a value, and a term without relations has a value once all its variables have one.

## Strategy

`Valuation.at?` reads a variable at a sort.  One induction compares two valuations of which
the second knows what the first knows about the listed variables: then it gives the value
that the first gives (`BvExpr.eval_of_keeps`).  Every operator allows that, because all of
them are monotone in what is known (`DefinedBy`).  Valuations that agree are compared in
both directions.
-/

namespace DalvikHorn

/-! ## Results that stay -/

/-- The second result is the first one, if there is a first one. -/
def DefinedBy {α : Type} (first second : Option α) : Prop :=
  ∀ value, first = some value → second = some value

namespace DefinedBy

variable {α β : Type} {first second : Option α}

theorem refl (result : Option α) : DefinedBy result result :=
  fun _ h => h

theorem antisymm (h : DefinedBy first second) (h' : DefinedBy second first) : first = second :=
  Option.ext fun value => ⟨h value, h' value⟩

theorem map (h : DefinedBy first second) (f : α → β) : DefinedBy (first.map f) (second.map f) := by
  intro value hvalue
  obtain ⟨operand, hoperand, rfl⟩ := Option.map_eq_some_iff.mp hvalue
  rw [h operand hoperand, Option.map_some]

theorem bind {f g : α → Option β} (h : DefinedBy first second)
    (hnext : ∀ value, DefinedBy (f value) (g value)) :
    DefinedBy (first.bind f) (second.bind g) := by
  intro value hvalue
  obtain ⟨operand, hoperand, hrest⟩ := Option.bind_eq_some_iff.mp hvalue
  rw [h operand hoperand, Option.bind_some]
  exact hnext operand value hrest

/-- An operand that becomes known does not change a conjunction that had a value. -/
theorem and {left left' right right' : Option Bool} (hleft : DefinedBy left left')
    (hright : DefinedBy right right') :
    DefinedBy (kleeneAnd left right) (kleeneAnd left' right') := by
  intro value hvalue
  cases left with
  | some truth =>
      rw [hleft truth rfl]
      cases truth with
      | false => exact hvalue
      | true => exact hright value hvalue
  | none =>
      -- only a second operand that is false decides
      obtain rfl : right = some false := by
        cases right with
        | none => cases hvalue
        | some truth =>
            cases truth with
            | false => rfl
            | true => cases hvalue
      rw [hright false rfl, ← hvalue]
      cases left' with
      | none => rfl
      | some truth => cases truth <;> rfl

theorem kleeneOr_eq (left right : Option Bool) :
    kleeneOr left right = (kleeneAnd (left.map (!·)) (right.map (!·))).map (!·) := by
  rcases left with _ | _ | _ <;> rcases right with _ | _ | _ <;> rfl

/-- An operand that becomes known does not change a disjunction that had a value. -/
theorem or {left left' right right' : Option Bool} (hleft : DefinedBy left left')
    (hright : DefinedBy right right') :
    DefinedBy (kleeneOr left right) (kleeneOr left' right') := by
  rw [kleeneOr_eq, kleeneOr_eq]
  exact ((hleft.map _).and (hright.map _)).map _

end DefinedBy

/-! ## Variables at their sorts -/

namespace Valuation

/-- The value of a variable at a sort, if it is bound at that sort. -/
def at? (env : Valuation) : String × TermSort → Option Value
  | (name, .bool) => (env.bool? name).map .bool
  | (name, .bitVec _) => (env.bits? name).map .bits
  | (name, .int) => (env.int? name).map .int

/-- Two valuations give the same values to some variables at their sorts. -/
def AgreesOn (env : Valuation) (vars : List (String × TermSort)) (other : Valuation) : Prop :=
  ∀ v ∈ vars, env.at? v = other.at? v

/-- The values that a valuation gives to some variables are also those of another one. -/
def KeepsOn (env : Valuation) (vars : List (String × TermSort)) (other : Valuation) : Prop :=
  ∀ v ∈ vars, DefinedBy (env.at? v) (other.at? v)

/-- All bindings of a valuation are also those of another one. -/
def ExtendedBy (env other : Valuation) : Prop :=
  ∀ name, DefinedBy (env name) (other name)

/-- Some variables are bound to values of their sorts. -/
def Binds (env : Valuation) (vars : List (String × TermSort)) : Prop :=
  ∀ v ∈ vars, (env.at? v).isSome

instance (env other : Valuation) (vars : List (String × TermSort)) :
    Decidable (env.AgreesOn vars other) :=
  inferInstanceAs (Decidable (∀ v ∈ vars, env.at? v = other.at? v))

instance (env : Valuation) (vars : List (String × TermSort)) : Decidable (env.Binds vars) :=
  inferInstanceAs (Decidable (∀ v ∈ vars, (env.at? v).isSome))

variable {env other : Valuation} {vars : List (String × TermSort)} {name : String}

theorem at?_bool : env.at? (name, .bool) = (env.bool? name).map .bool := rfl

theorem at?_bits {width : Nat} : env.at? (name, .bitVec width) = (env.bits? name).map .bits := rfl

theorem at?_congr {v : String × TermSort} (h : env v.1 = other v.1) : env.at? v = other.at? v := by
  obtain ⟨name, sort⟩ := v
  have h : env name = other name := h
  cases sort <;> simp only [at?, bool?, bits?, int?, h]

theorem AgreesOn.keepsOn (h : env.AgreesOn vars other) : env.KeepsOn vars other :=
  fun v hv => h v hv ▸ .refl _

theorem AgreesOn.symm (h : env.AgreesOn vars other) : other.AgreesOn vars env :=
  fun v hv => (h v hv).symm

/-- A binding that is kept is kept at every sort. -/
theorem ExtendedBy.keepsOn (h : env.ExtendedBy other) (vars : List (String × TermSort)) :
    env.KeepsOn vars other := by
  rintro ⟨name, sort⟩ - value hvalue
  cases hname : env name with
  | none => cases sort <;> simp [at?, bool?, bits?, int?, hname] at hvalue
  | some bound => exact (at?_congr (hname.trans (h name bound hname).symm)).symm.trans hvalue

theorem extendedBy_bind (h : env name = none) (value : Value) :
    env.ExtendedBy (env.bind name value) := by
  intro bound given hgiven
  have hne : bound ≠ name := by
    rintro rfl
    rw [h] at hgiven
    cases hgiven
  simpa only [bind, if_neg hne] using hgiven

theorem keepsOn_append {first second : List (String × TermSort)} :
    env.KeepsOn (first ++ second) other ↔ env.KeepsOn first other ∧ env.KeepsOn second other :=
  List.forall_mem_append

theorem binds_append {first second : List (String × TermSort)} :
    env.Binds (first ++ second) ↔ env.Binds first ∧ env.Binds second :=
  List.forall_mem_append

theorem KeepsOn.bits? {width : Nat} (h : env.KeepsOn [(name, .bitVec width)] other) :
    DefinedBy (env.bits? name) (other.bits? name) := by
  intro value hvalue
  have hkept := h _ (List.mem_singleton_self _) (.bits value) (by rw [at?_bits, hvalue]; rfl)
  obtain ⟨word, hword, heq⟩ := Option.map_eq_some_iff.mp hkept
  rwa [← Value.bits.inj heq]

theorem KeepsOn.bool? (h : env.KeepsOn [(name, .bool)] other) :
    DefinedBy (env.bool? name) (other.bool? name) := by
  intro value hvalue
  have hkept := h _ (List.mem_singleton_self _) (.bool value) (by rw [at?_bool, hvalue]; rfl)
  obtain ⟨flag, hflag, heq⟩ := Option.map_eq_some_iff.mp hkept
  rwa [← Value.bool.inj heq]

end Valuation

/-! ## Further bindings -/

section Keeping

variable {env other : Valuation}

mutual

/-- A bit-vector term keeps its value when its variables keep theirs. -/
theorem BvExpr.eval_of_keeps :
    ∀ expr : BvExpr, env.KeepsOn expr.vars other → DefinedBy (expr.eval env) (expr.eval other)
  | .lit _ _, _ => by
      rw [BvExpr.eval, BvExpr.eval]
      exact .refl _
  | .var name width, h => by
      rw [BvExpr.vars] at h
      rw [BvExpr.eval, BvExpr.eval]
      exact h.bits?
  | .unary op operand, h => by
      rw [BvExpr.vars] at h
      rw [BvExpr.eval, BvExpr.eval]
      exact (BvExpr.eval_of_keeps operand h).map _
  | .binary op left right, h => by
      rw [BvExpr.vars, Valuation.keepsOn_append] at h
      rw [BvExpr.eval, BvExpr.eval]
      exact (BvExpr.eval_of_keeps left h.1).bind fun a => (BvExpr.eval_of_keeps right h.2).map _
  | .ite condition yes no, h => by
      rw [BvExpr.vars, Valuation.keepsOn_append, Valuation.keepsOn_append] at h
      intro value hvalue
      rw [BvExpr.eval] at hvalue ⊢
      -- the condition had a value, which decides the same branch again
      cases hcondition : condition.eval env with
      | none =>
          rw [hcondition] at hvalue
          cases hvalue
      | some holds =>
          rw [Formula.eval_of_keeps condition h.1.1 holds hcondition]
          rw [hcondition] at hvalue
          cases holds with
          | true => exact BvExpr.eval_of_keeps yes h.1.2 value hvalue
          | false => exact BvExpr.eval_of_keeps no h.2 value hvalue

/-- A formula keeps its truth value when its variables keep their values. -/
theorem Formula.eval_of_keeps :
    ∀ formula : Formula, env.KeepsOn formula.vars other →
      DefinedBy (formula.eval env) (formula.eval other)
  | .const _, _ => by
      rw [Formula.eval, Formula.eval]
      exact .refl _
  | .var name, h => by
      rw [Formula.vars] at h
      rw [Formula.eval, Formula.eval]
      exact h.bool?
  | .not inner, h => by
      rw [Formula.vars] at h
      rw [Formula.eval, Formula.eval]
      exact (Formula.eval_of_keeps inner h).map _
  | .and parts, h => by
      rw [Formula.vars] at h
      rw [Formula.eval, Formula.eval]
      exact (Formula.evalList_of_keeps parts h).1
  | .or parts, h => by
      rw [Formula.vars] at h
      rw [Formula.eval, Formula.eval]
      exact (Formula.evalList_of_keeps parts h).2
  | .compare op left right, h => by
      -- a comparison needs the variables of both operands
      rw [Formula.vars, Valuation.keepsOn_append] at h
      rw [Formula.eval, Formula.eval]
      exact (BvExpr.eval_of_keeps left h.1).bind fun a => (BvExpr.eval_of_keeps right h.2).map _
  | .app _ _, _ => by
      rw [Formula.eval, Formula.eval]
      exact .refl _

theorem Formula.evalList_of_keeps :
    ∀ parts : List Formula, env.KeepsOn (Formula.varsList parts) other →
      DefinedBy (Formula.evalAll env parts) (Formula.evalAll other parts) ∧
        DefinedBy (Formula.evalAny env parts) (Formula.evalAny other parts)
  | [], _ => by
      rw [Formula.evalAll, Formula.evalAll, Formula.evalAny, Formula.evalAny]
      exact ⟨.refl _, .refl _⟩
  | part :: rest, h => by
      rw [Formula.varsList, Valuation.keepsOn_append] at h
      have hpart := Formula.eval_of_keeps part h.1
      obtain ⟨hall, hany⟩ := Formula.evalList_of_keeps rest h.2
      rw [Formula.evalAll, Formula.evalAll, Formula.evalAny, Formula.evalAny]
      exact ⟨hpart.and hall, hpart.or hany⟩

end

/-- A bit-vector term has one value under valuations that agree on its variables. -/
theorem BvExpr.eval_of_agrees (expr : BvExpr) (h : env.AgreesOn expr.vars other) :
    expr.eval env = expr.eval other :=
  (eval_of_keeps expr h.keepsOn).antisymm (eval_of_keeps expr h.symm.keepsOn)

/-- A formula has one truth value under valuations that agree on its variables. -/
theorem Formula.eval_of_agrees (formula : Formula) (h : env.AgreesOn formula.vars other) :
    formula.eval env = formula.eval other :=
  (eval_of_keeps formula h.keepsOn).antisymm (eval_of_keeps formula h.symm.keepsOn)

end Keeping

/-! ## Terms without relations -/

section Values

variable {env : Valuation}

theorem exists_kleeneAnd {a b : Option Bool} (ha : ∃ x, a = some x) (hb : ∃ y, b = some y) :
    ∃ z, kleeneAnd a b = some z := by
  obtain ⟨x, rfl⟩ := ha
  obtain ⟨y, rfl⟩ := hb
  cases x with
  | false => exact ⟨false, rfl⟩
  | true => exact ⟨y, rfl⟩

theorem exists_kleeneOr {a b : Option Bool} (ha : ∃ x, a = some x) (hb : ∃ y, b = some y) :
    ∃ z, kleeneOr a b = some z := by
  obtain ⟨x, rfl⟩ := ha
  obtain ⟨y, rfl⟩ := hb
  cases x with
  | false => exact ⟨y, rfl⟩
  | true => exact ⟨true, rfl⟩

mutual

/-- A bit-vector term without relations has a value once all its variables have. -/
theorem BvExpr.exists_eval_of_binds :
    ∀ expr : BvExpr, expr.applications = [] → env.Binds expr.vars →
      ∃ value, expr.eval env = some value
  | .lit value _, _, _ => ⟨value, by rw [BvExpr.eval]⟩
  | .var name width, _, hvars => by
      rw [BvExpr.vars] at hvars
      obtain ⟨value, hvalue⟩ := Option.isSome_iff_exists.mp
        (Option.isSome_map.symm.trans (hvars (name, .bitVec width) (List.mem_singleton_self _)))
      exact ⟨value, by rw [BvExpr.eval, hvalue]⟩
  | .unary op operand, happ, hvars => by
      rw [BvExpr.applications] at happ
      rw [BvExpr.vars] at hvars
      obtain ⟨value, hvalue⟩ := BvExpr.exists_eval_of_binds operand happ hvars
      exact ⟨_, by rw [BvExpr.eval, hvalue, Option.map_some]⟩
  | .binary op left right, happ, hvars => by
      rw [BvExpr.applications, List.append_eq_nil_iff] at happ
      rw [BvExpr.vars, Valuation.binds_append] at hvars
      obtain ⟨a, ha⟩ := BvExpr.exists_eval_of_binds left happ.1 hvars.1
      obtain ⟨b, hb⟩ := BvExpr.exists_eval_of_binds right happ.2 hvars.2
      exact ⟨_, by rw [BvExpr.eval, ha, hb, Option.bind_some, Option.map_some]⟩
  | .ite condition yes no, happ, hvars => by
      rw [BvExpr.applications, List.append_eq_nil_iff, List.append_eq_nil_iff] at happ
      rw [BvExpr.vars, Valuation.binds_append, Valuation.binds_append] at hvars
      -- the condition has a value, so one of the branches is asked
      obtain ⟨holds, hholds⟩ := Formula.exists_eval_of_binds condition happ.1.1 hvars.1.1
      cases holds with
      | true =>
          obtain ⟨value, hvalue⟩ := BvExpr.exists_eval_of_binds yes happ.1.2 hvars.1.2
          exact ⟨value, by rw [BvExpr.eval, hholds]; exact hvalue⟩
      | false =>
          obtain ⟨value, hvalue⟩ := BvExpr.exists_eval_of_binds no happ.2 hvars.2
          exact ⟨value, by rw [BvExpr.eval, hholds]; exact hvalue⟩

/-- A formula without relations has a truth value once all its variables have values. -/
theorem Formula.exists_eval_of_binds :
    ∀ formula : Formula, formula.applications = [] → env.Binds formula.vars →
      ∃ value, formula.eval env = some value
  | .const value, _, _ => ⟨value, by rw [Formula.eval]⟩
  | .var name, _, hvars => by
      rw [Formula.vars] at hvars
      obtain ⟨value, hvalue⟩ := Option.isSome_iff_exists.mp
        (Option.isSome_map.symm.trans (hvars (name, .bool) (List.mem_singleton_self _)))
      exact ⟨value, by rw [Formula.eval, hvalue]⟩
  | .not inner, happ, hvars => by
      rw [Formula.applications] at happ
      rw [Formula.vars] at hvars
      obtain ⟨value, hvalue⟩ := Formula.exists_eval_of_binds inner happ hvars
      exact ⟨!value, by rw [Formula.eval, hvalue, Option.map_some]⟩
  | .and parts, happ, hvars => by
      rw [Formula.applications] at happ
      rw [Formula.vars] at hvars
      rw [Formula.eval]
      exact (Formula.exists_evalList_of_binds parts happ hvars).1
  | .or parts, happ, hvars => by
      rw [Formula.applications] at happ
      rw [Formula.vars] at hvars
      rw [Formula.eval]
      exact (Formula.exists_evalList_of_binds parts happ hvars).2
  | .compare op left right, happ, hvars => by
      rw [Formula.applications, List.append_eq_nil_iff] at happ
      rw [Formula.vars, Valuation.binds_append] at hvars
      obtain ⟨a, ha⟩ := BvExpr.exists_eval_of_binds left happ.1 hvars.1
      obtain ⟨b, hb⟩ := BvExpr.exists_eval_of_binds right happ.2 hvars.2
      exact ⟨_, by rw [Formula.eval, ha, hb, Option.bind_some, Option.map_some]⟩
  | .app _ _, happ, _ => by simp [Formula.applications] at happ

theorem Formula.exists_evalList_of_binds :
    ∀ parts : List Formula, Formula.applicationsList parts = [] →
      env.Binds (Formula.varsList parts) →
        (∃ value, Formula.evalAll env parts = some value) ∧
          ∃ value, Formula.evalAny env parts = some value
  | [], _, _ => ⟨⟨true, by rw [Formula.evalAll]⟩, ⟨false, by rw [Formula.evalAny]⟩⟩
  | part :: rest, happ, hvars => by
      rw [Formula.applicationsList, List.append_eq_nil_iff] at happ
      rw [Formula.varsList, Valuation.binds_append] at hvars
      have hpart := Formula.exists_eval_of_binds part happ.1 hvars.1
      have hrest := Formula.exists_evalList_of_binds rest happ.2 hvars.2
      rw [Formula.evalAll, Formula.evalAny]
      exact ⟨exists_kleeneAnd hpart hrest.1, exists_kleeneOr hpart hrest.2⟩

end

end Values

/-- The listed variables are all that evaluation depends on.  Terms and formulas have one result
under valuations that agree on their variables at the sorts listed; a value is the same under every
valuation with further bindings, also when it was found without some of the variables; and without
relations there is a value once every variable is bound at its sort. -/
theorem eval_depends_on_vars :
    (∀ (expr : BvExpr) (env other : Valuation),
      (env.AgreesOn expr.vars other → expr.eval env = expr.eval other) ∧
      (env.ExtendedBy other → ∀ value, expr.eval env = some value → expr.eval other = some value) ∧
      (expr.applications = [] → env.Binds expr.vars → ∃ value, expr.eval env = some value)) ∧
    ∀ (formula : Formula) (env other : Valuation),
      (env.AgreesOn formula.vars other → formula.eval env = formula.eval other) ∧
      (env.ExtendedBy other →
        ∀ truth, formula.eval env = some truth → formula.eval other = some truth) ∧
      (formula.applications = [] → env.Binds formula.vars →
        ∃ truth, formula.eval env = some truth) :=
  ⟨fun expr _ _ => ⟨BvExpr.eval_of_agrees expr,
      fun hextended => BvExpr.eval_of_keeps expr (hextended.keepsOn _),
      BvExpr.exists_eval_of_binds expr⟩,
    fun formula _ _ => ⟨Formula.eval_of_agrees formula,
      fun hextended => Formula.eval_of_keeps formula (hextended.keepsOn _),
      Formula.exists_eval_of_binds formula⟩⟩

/-! ## A choice that is not fully known -/

/-- An object is on the heap, or the label is set. -/
def undecidedCondition : Formula :=
  .or [.app "H" [], .var (Names.high 0)]

/-- The successor of one register, or another register. -/
def undecidedChoice (condition : Formula) : BvExpr :=
  .ite condition (.binary .add (.var (Names.value 0) 8) (.lit 1 8)) (.var (Names.value 1) 8)

/-- The label is set and the first register has a value; nothing is known of the second. -/
def partialValuation : Valuation :=
  (Valuation.empty.bind (Names.value 0) (.bits 7)).bind (Names.high 0) (.bool true)

/-- The set label decides the condition and leaves the second register unread: it may be bound at
another sort or get a value later.  With the label alone as condition all three have to be bound. -/
theorem eval_depends_on_vars_choice :
    let choice := undecidedChoice undecidedCondition
    let flagged := partialValuation.bind (Names.value 1) (.bool true)
    let known := partialValuation.bind (Names.value 1) (.bits 3)
    choice.eval partialValuation = some 8 ∧
      partialValuation.AgreesOn choice.vars flagged ∧ choice.eval flagged = some 8 ∧
      partialValuation.ExtendedBy known ∧ choice.eval known = some 8 ∧
      known.Binds (undecidedChoice (.var (Names.high 0))).vars ∧
      ∃ value, (undecidedChoice (.var (Names.high 0))).eval known = some value := by
  intro choice flagged known
  have hchoice : choice.eval partialValuation = some 8 := by decide
  have hagrees : partialValuation.AgreesOn choice.vars flagged := by decide
  have hextended : partialValuation.ExtendedBy known :=
    Valuation.extendedBy_bind (by decide) (.bits 3)
  have hbinds : known.Binds (undecidedChoice (.var (Names.high 0))).vars := by decide
  have happlications : (undecidedChoice (.var (Names.high 0))).applications = [] := rfl
  obtain ⟨hsame, -, -⟩ := eval_depends_on_vars.1 choice partialValuation flagged
  obtain ⟨-, hkept, -⟩ := eval_depends_on_vars.1 choice partialValuation known
  obtain ⟨-, -, hexists⟩ :=
    eval_depends_on_vars.1 (undecidedChoice (.var (Names.high 0))) known known
  exact ⟨hchoice, hagrees, (hsame hagrees).symm.trans hchoice, hextended, hkept hextended 8 hchoice,
    hbinds, hexists happlications hbinds⟩

end DalvikHorn
