import DalvikHorn.Clause
import DalvikHorn.Proofs.EvaluatedVariables

/-!
# The least model of a list of clauses

A fact is a relation with values for its columns.  A clause derives the facts
that its head denotes under a valuation of its variables for which its body
holds.  `Derivable` collects what finitely many such steps give; it is the least
set of facts that all clauses keep (`derivable_models`, `Derivable.least`).

Variables range over all values of their sorts, bit-vectors over the values of
their width.
-/

namespace DalvikHorn

/-! ## Facts -/

/-- A relation with the values of its columns. -/
structure Fact where
  relation : String
  args : List Value
  deriving DecidableEq, Repr

/-- The value of an argument. -/
def Term.eval (env : Valuation) : Term → Option Value
  | .bv expr => (expr.eval env).map .bits
  | .bool formula => (formula.eval env).map .bool
  | .int expr => (expr.eval env).map .int

/-- An atom denotes a fact when all its arguments have the values of the fact. -/
structure Atom.Denotes (env : Valuation) (atom : Atom) (fact : Fact) : Prop where
  relation_eq : atom.relation = fact.relation
  args_eq : atom.args.map (Term.eval env) = fact.args.map some

/-- A value of a sort. -/
def Value.HasSort : Value → TermSort → Prop
  | .bool _, .bool => True
  | .bits value, .bitVec width => value < valueCount width
  | .int _, .int => True
  | _, _ => False

/-- A valuation gives all variables of a list values of their sorts. -/
def Valuation.Admits (env : Valuation) (vars : List (String × TermSort)) : Prop :=
  ∀ v ∈ vars, ∃ value, env v.1 = some value ∧ value.HasSort v.2

theorem Valuation.Admits.mono {env : Valuation} {vars fewer : List (String × TermSort)}
    (h : env.Admits vars) (hsub : ∀ v ∈ fewer, v ∈ vars) : env.Admits fewer :=
  fun v hv => h v (hsub v hv)

theorem Valuation.Admits.exists_bits {env : Valuation} {vars : List (String × TermSort)}
    (h : env.Admits vars) {name : String} {width : Nat} (hmem : (name, .bitVec width) ∈ vars) :
    ∃ value, env.bits? name = some value ∧ value < valueCount width := by
  obtain ⟨value, hvalue, hsort⟩ := h _ hmem
  cases value with
  | bits word => exact ⟨word, by rw [Valuation.bits?, hvalue], hsort⟩
  | bool flag => cases hsort
  | int number => cases hsort

theorem Valuation.Admits.exists_bool {env : Valuation} {vars : List (String × TermSort)}
    (h : env.Admits vars) {name : String} (hmem : (name, .bool) ∈ vars) :
    ∃ value, env.bool? name = some value := by
  obtain ⟨value, hvalue, hsort⟩ := h _ hmem
  cases value with
  | bits word => cases hsort
  | bool flag => exact ⟨flag, by rw [Valuation.bool?, hvalue]⟩
  | int number => cases hsort

/-! ## Values of terms without relations -/

section Values

variable {env : Valuation}

theorem Valuation.Admits.append {first second : List (String × TermSort)}
    (h : env.Admits (first ++ second)) : env.Admits first ∧ env.Admits second :=
  ⟨h.mono fun _ hv => List.mem_append_left _ hv, h.mono fun _ hv => List.mem_append_right _ hv⟩

/-- A name with a value of its sort is bound at its sort. -/
theorem Valuation.Admits.binds {vars : List (String × TermSort)} (h : env.Admits vars) :
    env.Binds vars := by
  rintro ⟨name, sort⟩ hmem
  cases sort with
  | bool =>
      obtain ⟨value, hvalue⟩ := h.exists_bool hmem
      rw [at?_bool, hvalue]
      rfl
  | bitVec width =>
      obtain ⟨value, hvalue, -⟩ := h.exists_bits hmem
      rw [at?_bits, hvalue]
      rfl
  | int =>
      obtain ⟨value, hvalue, hsort⟩ := h _ hmem
      cases value with
      | int number => simp [at?, int?, hvalue]
      | bool flag => cases hsort
      | bits word => cases hsort

/-- A bit-vector term without relations has a value once all its variables have values of their
sorts. -/
theorem BvExpr.exists_eval (expr : BvExpr) (happ : expr.applications = [])
    (hvars : env.Admits expr.vars) : ∃ value, expr.eval env = some value :=
  exists_eval_of_binds expr happ hvars.binds

/-- A formula without relations has a truth value once all its variables have values of their
sorts. -/
theorem Formula.exists_eval (formula : Formula) (happ : formula.applications = [])
    (hvars : env.Admits formula.vars) : ∃ value, formula.eval env = some value :=
  exists_eval_of_binds formula happ hvars.binds

theorem Term.Sorted.exists_eval {width : Nat} {term : Term} (h : term.Sorted width)
    (hvars : env.Admits term.vars) : ∃ value, term.eval env = some value := by
  cases term with
  | bv expr =>
      obtain ⟨value, hvalue⟩ :=
        BvExpr.exists_eval expr (BvExpr.Sorted.applications h) (by simpa [Term.vars] using hvars)
      exact ⟨.bits value, by rw [Term.eval, hvalue, Option.map_some]⟩
  | bool formula =>
      obtain ⟨value, hvalue⟩ := Formula.exists_eval formula (Formula.Sorted.applications h)
        (by simpa [Term.vars] using hvars)
      exact ⟨.bool value, by rw [Term.eval, hvalue, Option.map_some]⟩
  | int expr =>
      cases expr with
      | lit value => exact ⟨.int value, rfl⟩
      | var name => exact h.elim

/-- An atom over sorted terms denotes a fact. -/
theorem Atom.exists_denotes {width : Nat} {atom : Atom} (h : ∀ arg ∈ atom.args, arg.Sorted width)
    (hvars : env.Admits atom.vars) : ∃ fact, atom.Denotes env fact := by
  have heval : ∀ args : List Term, (∀ arg ∈ args, arg.Sorted width) →
      env.Admits (Term.varsList args) →
        ∃ values : List Value, args.map (Term.eval env) = values.map some := by
    intro args hargs hadmits
    induction args with
    | nil => exact ⟨[], rfl⟩
    | cons arg rest ih =>
        rw [Term.varsList] at hadmits
        obtain ⟨value, hvalue⟩ := (hargs arg List.mem_cons_self).exists_eval hadmits.append.1
        obtain ⟨values, hvalues⟩ :=
          ih (fun other hother => hargs other (List.mem_cons_of_mem _ hother)) hadmits.append.2
        exact ⟨value :: values, by rw [List.map_cons, List.map_cons, hvalue, hvalues]⟩
  obtain ⟨values, hvalues⟩ := heval atom.args h hvars
  exact ⟨⟨atom.relation, values⟩, rfl, hvalues⟩

end Values

/-! ## Bodies -/

mutual

/-- Whether a formula holds when the relations contain some facts.  Under a negation and in
the operands of a comparison no relation may stand. -/
def Formula.Holds (facts : Fact → Prop) (env : Valuation) : Formula → Prop
  | .app relation args => ∃ fact, facts fact ∧ (Atom.mk relation args).Denotes env fact
  | .and parts => Formula.HoldAll facts env parts
  | .or parts => Formula.HoldsAny facts env parts
  | .const value => value = true
  | .var name => env.bool? name = some true
  | .not inner => inner.eval env = some false
  | .compare op left right => (Formula.compare op left right).eval env = some true

/-- Whether all formulas of a list hold. -/
def Formula.HoldAll (facts : Fact → Prop) (env : Valuation) : List Formula → Prop
  | [] => True
  | part :: rest => part.Holds facts env ∧ Formula.HoldAll facts env rest

/-- Whether some formula of a list holds. -/
def Formula.HoldsAny (facts : Fact → Prop) (env : Valuation) : List Formula → Prop
  | [] => False
  | part :: rest => part.Holds facts env ∨ Formula.HoldsAny facts env rest

end

namespace Formula

variable {facts more : Fact → Prop} {env : Valuation}

theorem holds_atom {atom : Atom} :
    atom.toFormula.Holds facts env ↔ ∃ fact, facts fact ∧ atom.Denotes env fact := by
  rw [Atom.toFormula, Holds]

mutual

/-- Whatever holds for some facts holds for more. -/
theorem Holds.mono (hmore : ∀ fact, facts fact → more fact) :
    ∀ formula : Formula, formula.Holds facts env → formula.Holds more env
  | .app _ _, h => by
      rw [Formula.Holds] at h ⊢
      obtain ⟨fact, hfact, hdenotes⟩ := h
      exact ⟨fact, hmore fact hfact, hdenotes⟩
  | .and parts, h => by
      rw [Formula.Holds] at h ⊢
      exact HoldAll.mono hmore parts h
  | .or parts, h => by
      rw [Formula.Holds] at h ⊢
      exact HoldsAny.mono hmore parts h
  | .const _, h => by
      rw [Formula.Holds] at h ⊢
      exact h
  | .var _, h => by
      rw [Formula.Holds] at h ⊢
      exact h
  | .not _, h => by
      -- a negated formula is evaluated, so more facts change nothing
      rw [Formula.Holds] at h ⊢
      exact h
  | .compare _ _ _, h => by
      rw [Formula.Holds] at h ⊢
      exact h

theorem HoldAll.mono (hmore : ∀ fact, facts fact → more fact) :
    ∀ parts : List Formula, HoldAll facts env parts → HoldAll more env parts
  | [], _ => by rw [HoldAll]; trivial
  | part :: rest, h => by
      rw [HoldAll] at h ⊢
      exact ⟨Holds.mono hmore part h.1, HoldAll.mono hmore rest h.2⟩

theorem HoldsAny.mono (hmore : ∀ fact, facts fact → more fact) :
    ∀ parts : List Formula, HoldsAny facts env parts → HoldsAny more env parts
  | [], h => by rw [HoldsAny] at h; exact h.elim
  | part :: rest, h => by
      rw [HoldsAny] at h ⊢
      exact h.imp (Holds.mono hmore part) (HoldsAny.mono hmore rest)

end

mutual

/-- Without relations a formula holds when it evaluates to true, whatever the facts are. -/
theorem holds_iff_eval :
    ∀ formula : Formula, formula.applications = [] →
      (formula.Holds facts env ↔ formula.eval env = some true)
  | .app _ _, h => by simp [applications] at h
  | .and parts, h => by
      rw [Formula.Holds, eval]
      exact holdAll_iff_evalAll parts (by simpa [applications] using h)
  | .or parts, h => by
      rw [Formula.Holds, eval]
      exact holdsAny_iff_evalAny parts (by simpa [applications] using h)
  | .const _, _ => by simp [Formula.Holds, eval]
  | .var _, _ => by rw [Formula.Holds, eval]
  | .not inner, _ => by
      rw [Formula.Holds, eval]
      cases inner.eval env with
      | none => simp
      | some value => cases value <;> simp
  | .compare _ _ _, _ => by rw [Formula.Holds]

theorem holdAll_iff_evalAll :
    ∀ parts : List Formula, applicationsList parts = [] →
      (HoldAll facts env parts ↔ evalAll env parts = some true)
  | [], _ => by simp [HoldAll, evalAll]
  | part :: rest, h => by
      rw [applicationsList, List.append_eq_nil_iff] at h
      rw [HoldAll, evalAll, kleeneAnd_eq_true_iff, holds_iff_eval part h.1,
        holdAll_iff_evalAll rest h.2]

theorem holdsAny_iff_evalAny :
    ∀ parts : List Formula, applicationsList parts = [] →
      (HoldsAny facts env parts ↔ evalAny env parts = some true)
  | [], _ => by simp [HoldsAny, evalAny]
  | part :: rest, h => by
      rw [applicationsList, List.append_eq_nil_iff] at h
      rw [HoldsAny, evalAny, kleeneOr_eq_true_iff, holds_iff_eval part h.1,
        holdsAny_iff_evalAny rest h.2]

end

theorem holdsAny_iff {parts : List Formula} :
    HoldsAny facts env parts ↔ ∃ part ∈ parts, part.Holds facts env := by
  induction parts with
  | nil => simp [HoldsAny]
  | cons part rest ih => simp [HoldsAny, ih]

/-- A folded disjunction holds exactly when one of its parts does. -/
theorem holds_any_iff {parts : List Formula} :
    (any parts).Holds facts env ↔ ∃ part ∈ parts, part.Holds facts env := by
  refine @any_iff_exists (fun formula => formula.Holds facts env) ?_ ?_ ?_ parts
  · rw [Holds]
  · rw [Holds]
    exact Bool.false_ne_true
  · intro inner
    rw [Holds, holdsAny_iff]

end Formula

/-! ## Derivations -/

/-- What can be derived from a list of clauses. -/
inductive Derivable (clauses : List Clause) : Fact → Prop
  | derive {clause : Clause} {env : Valuation} {fact : Fact} {premises : Fact → Prop}
      (hclause : clause ∈ clauses) (henv : env.Admits clause.vars)
      (hpremises : ∀ premise, premises premise → Derivable clauses premise)
      (hbody : ∀ part ∈ clause.body, part.Holds premises env)
      (hhead : clause.head.Denotes env fact) : Derivable clauses fact

/-- A set of facts that a list of clauses does not lead out of. -/
def Models (clauses : List Clause) (facts : Fact → Prop) : Prop :=
  ∀ clause ∈ clauses, ∀ (env : Valuation) (fact : Fact), env.Admits clause.vars →
    (∀ part ∈ clause.body, part.Holds facts env) → clause.head.Denotes env fact → facts fact

theorem derivable_models (clauses : List Clause) : Models clauses (Derivable clauses) :=
  fun _ hclause _ _ henv hbody hhead => .derive hclause henv (fun _ h => h) hbody hhead

/-- To show a property of all derivable facts it may be assumed of the facts that a step
uses. -/
theorem Derivable.induct {clauses : List Clause} {motive : Fact → Prop}
    (hstep : ∀ clause ∈ clauses, ∀ (env : Valuation) (fact : Fact), env.Admits clause.vars →
      (∀ part ∈ clause.body,
        part.Holds (fun premise => Derivable clauses premise ∧ motive premise) env) →
      clause.head.Denotes env fact → motive fact)
    {fact : Fact} (h : Derivable clauses fact) : motive fact := by
  induction h with
  | derive hclause henv hpremises hbody hhead ih =>
      refine hstep _ hclause _ _ henv (fun part hpart => ?_) hhead
      exact Formula.Holds.mono (fun premise hpremise =>
        ⟨hpremises premise hpremise, ih premise hpremise⟩) part (hbody part hpart)

/-- Every model contains all derivable facts. -/
theorem Derivable.least {clauses : List Clause} {facts : Fact → Prop}
    (hfacts : Models clauses facts) {fact : Fact} (h : Derivable clauses fact) : facts fact :=
  h.induct fun clause hclause env fact henv hbody hhead =>
    hfacts clause hclause env fact henv
      (fun part hpart => Formula.Holds.mono (fun _ hpremise => hpremise.2) part (hbody part hpart))
      hhead

/-- More clauses derive more. -/
theorem Derivable.of_subset {clauses more : List Clause} (hmore : clauses ⊆ more) {fact : Fact}
    (h : Derivable clauses fact) : Derivable more fact :=
  h.least fun clause hclause => derivable_models more clause (hmore hclause)

end DalvikHorn
