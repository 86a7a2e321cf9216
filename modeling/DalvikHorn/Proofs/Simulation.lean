import DalvikHorn.Proofs.LeastModel

/-!
# Simulations between clause systems

Two lists of clauses can be compared without knowing what they derive: it is enough
that every clause of the first has a counterpart in the second that derives a related
fact from related facts (`Clause.SimulatedBy`).  Then every fact that the first list
derives has a related fact that the second one derives (`Derivable.simulated`).

The valuations of a step may leave names unbound that its clause does not mention.
Since terms only depend on their variables (`Formula.Holds.congr`), such a valuation
can be completed, and counterparts are asked for complete valuations only.
-/

namespace DalvikHorn

/-! ## Dependence on variables -/

section Congruence

variable {env env' : Valuation}

theorem Valuation.bits?_congr {name : String} (h : env name = env' name) :
    env.bits? name = env'.bits? name := by
  rw [bits?, bits?, h]

theorem Valuation.bool?_congr {name : String} (h : env name = env' name) :
    env.bool? name = env'.bool? name := by
  rw [bool?, bool?, h]

/-- A bit-vector term has one value under valuations that give its variables the same values. -/
theorem BvExpr.eval_congr (expr : BvExpr) (h : ∀ v ∈ expr.vars, env v.1 = env' v.1) :
    expr.eval env = expr.eval env' :=
  eval_of_agrees expr fun v hv => Valuation.at?_congr (h v hv)

/-- A formula has one truth value under valuations that give its variables the same values. -/
theorem Formula.eval_congr (formula : Formula) (h : ∀ v ∈ formula.vars, env v.1 = env' v.1) :
    formula.eval env = formula.eval env' :=
  eval_of_agrees formula fun v hv => Valuation.at?_congr (h v hv)

theorem Term.eval_congr {term : Term} (h : ∀ v ∈ term.vars, env v.1 = env' v.1) :
    term.eval env = term.eval env' := by
  cases term with
  | bv expr =>
      rw [Term.eval, Term.eval, BvExpr.eval_congr expr (by simpa using h)]
  | bool formula =>
      rw [Term.eval, Term.eval, Formula.eval_congr formula (by simpa using h)]
  | int expr =>
      cases expr with
      | lit value => rfl
      | var name =>
          have hname : env name = env' name := h (name, .int) (by simp)
          simp only [Term.eval, IntExpr.eval, Valuation.int?, hname]

theorem Atom.Denotes.congr {atom : Atom} {fact : Fact} (h : atom.Denotes env fact)
    (hvars : ∀ v ∈ atom.vars, env v.1 = env' v.1) : atom.Denotes env' fact where
  relation_eq := h.relation_eq
  args_eq := by
    rw [← h.args_eq]
    refine List.map_congr_left fun arg harg => (Term.eval_congr fun v hv => ?_).symm
    exact hvars v (Term.mem_varsList.mpr ⟨arg, harg, hv⟩)

mutual

/-- Whether a formula holds depends on the values of its variables only. -/
theorem Formula.Holds.congr {facts : Fact → Prop} :
    ∀ formula : Formula, (∀ v ∈ formula.vars, env v.1 = env' v.1) →
      formula.Holds facts env → formula.Holds facts env'
  | .app relation args, hvars, h => by
      rw [Formula.Holds] at h ⊢
      obtain ⟨fact, hfact, hdenotes⟩ := h
      exact ⟨fact, hfact, hdenotes.congr (by simpa [Atom.vars] using hvars)⟩
  | .and parts, hvars, h => by
      rw [Formula.vars] at hvars
      rw [Formula.Holds] at h ⊢
      exact Formula.HoldAll.congr parts hvars h
  | .or parts, hvars, h => by
      rw [Formula.vars] at hvars
      rw [Formula.Holds] at h ⊢
      exact Formula.HoldsAny.congr parts hvars h
  | .const _, _, h => by
      rw [Formula.Holds] at h ⊢
      exact h
  | .var name, hvars, h => by
      rw [Formula.Holds] at h ⊢
      rw [← h]
      exact (Valuation.bool?_congr (hvars (name, .bool) (by simp))).symm
  | .not inner, hvars, h => by
      -- what is negated is only evaluated, so its variables are enough
      rw [Formula.vars] at hvars
      rw [Formula.Holds] at h ⊢
      rw [← h]
      exact (Formula.eval_congr inner hvars).symm
  | .compare op left right, hvars, h => by
      rw [Formula.Holds] at h ⊢
      rw [← h]
      exact (Formula.eval_congr _ hvars).symm

theorem Formula.HoldAll.congr {facts : Fact → Prop} :
    ∀ parts : List Formula, (∀ v ∈ Formula.varsList parts, env v.1 = env' v.1) →
      Formula.HoldAll facts env parts → Formula.HoldAll facts env' parts
  | [], _, _ => by
      rw [Formula.HoldAll]
      trivial
  | part :: rest, hvars, h => by
      rw [Formula.varsList, List.forall_mem_append] at hvars
      rw [Formula.HoldAll] at h ⊢
      exact ⟨Formula.Holds.congr part hvars.1 h.1, Formula.HoldAll.congr rest hvars.2 h.2⟩

theorem Formula.HoldsAny.congr {facts : Fact → Prop} :
    ∀ parts : List Formula, (∀ v ∈ Formula.varsList parts, env v.1 = env' v.1) →
      Formula.HoldsAny facts env parts → Formula.HoldsAny facts env' parts
  | [], _, h => by
      rw [Formula.HoldsAny] at h
      exact h.elim
  | part :: rest, hvars, h => by
      rw [Formula.varsList, List.forall_mem_append] at hvars
      rw [Formula.HoldsAny] at h ⊢
      exact h.imp (Formula.Holds.congr part hvars.1) (Formula.HoldsAny.congr rest hvars.2)

end

end Congruence

/-! ## Complete valuations -/

namespace Valuation

/-- A valuation that gives every name a value of its sort. -/
def Complete (width : Nat) (env : Valuation) : Prop :=
  ∀ name, ∃ value, env name = some value ∧ value.HasSort (Names.sort width name)

variable {width : Nat} {env : Valuation}

theorem Complete.admits_of_sort (h : env.Complete width) {vars : List (String × TermSort)}
    (hvars : ∀ v ∈ vars, v.2 = Names.sort width v.1) : env.Admits vars := by
  intro v hv
  rw [hvars v hv]
  exact h v.1

theorem Complete.admits (h : env.Complete width) {vars : List (String × TermSort)}
    (hvars : Names.Respected width vars) : env.Admits vars :=
  h.admits_of_sort fun v hv => (hvars v hv).sort_eq

/-- The valuation that agrees with another one on some names and is zero elsewhere. -/
def completed (env : Valuation) (width : Nat) (vars : List (String × TermSort)) : Valuation :=
  fun name =>
    if name ∈ vars.map Prod.fst then env name
    else
      match Names.sort width name with
      | .bool => some (.bool false)
      | .bitVec _ => some (.bits 0)
      | .int => some (.int 0)

theorem completed_eq (env : Valuation) (width : Nat) {vars : List (String × TermSort)}
    {v : String × TermSort} (hv : v ∈ vars) : env.completed width vars v.1 = env v.1 :=
  if_pos (List.mem_map_of_mem hv)

theorem Admits.complete {vars : List (String × TermSort)} (h : env.Admits vars)
    (hvars : Names.Respected width vars) : (env.completed width vars).Complete width := by
  intro name
  by_cases hname : name ∈ vars.map Prod.fst
  · obtain ⟨v, hv, rfl⟩ := List.mem_map.mp hname
    rw [completed_eq env width hv, ← (hvars v hv).sort_eq]
    exact h v hv
  · rw [completed, if_neg hname]
    cases Names.sort width name with
    | bool => exact ⟨_, rfl, trivial⟩
    | bitVec bits => exact ⟨_, rfl, Nat.two_pow_pos _⟩
    | int => exact ⟨_, rfl, trivial⟩

end Valuation

/-! ## Simulations -/

/-- Every fact of one kind has a related fact of another kind. -/
def Covers (related : Fact → Fact → Prop) (facts facts' : Fact → Prop) : Prop :=
  ∀ fact, facts fact → ∃ fact', facts' fact' ∧ related fact fact'

/-- Whatever a clause derives from some facts, another clause derives a related fact from related
facts. -/
structure Clause.SimulatedBy (width : Nat) (related : Fact → Fact → Prop)
    (clause clause' : Clause) : Prop where
  respected : Names.Respected width clause.vars
  respected' : Names.Respected width clause'.vars
  derives : ∀ (facts facts' : Fact → Prop), Covers related facts facts' →
    ∀ (env : Valuation) (fact : Fact), env.Complete width →
      (∀ part ∈ clause.body, part.Holds facts env) → clause.head.Denotes env fact →
        ∃ (env' : Valuation) (fact' : Fact), env'.Complete width ∧
          (∀ part ∈ clause'.body, part.Holds facts' env') ∧ clause'.head.Denotes env' fact' ∧
          related fact fact'

/-- When all clauses of a list have counterparts in another one, all that the first list derives
has a counterpart that the second one derives. -/
theorem Derivable.simulated {width : Nat} {related : Fact → Fact → Prop}
    {first second : List Clause}
    (hclauses : ∀ clause ∈ first, ∃ clause' ∈ second, clause.SimulatedBy width related clause') :
    Covers related (Derivable first) (Derivable second) := by
  intro fact hfact
  refine Derivable.induct (motive := fun fact => ∃ fact', Derivable second fact' ∧
    related fact fact') (fun clause hclause env fact henv hbody hhead => ?_) hfact
  obtain ⟨clause', hclause', hsimulated⟩ := hclauses clause hclause
  -- the step is taken with a complete valuation, which agrees on all that the clause mentions
  have hagree : ∀ v ∈ clause.vars, env v.1 = env.completed width clause.vars v.1 :=
    fun v hv => (env.completed_eq width hv).symm
  obtain ⟨env', fact', hcomplete, hbody', hhead', hrelated⟩ :=
    hsimulated.derives
      (fun premise => Derivable first premise ∧
        ∃ premise', Derivable second premise' ∧ related premise premise')
      (Derivable second) (fun premise hpremise => hpremise.2)
      (env.completed width clause.vars) fact (henv.complete hsimulated.respected)
      (fun part hpart => Formula.Holds.congr part (fun v hv => hagree v
        (List.mem_append_left _ (Formula.mem_varsList.mpr ⟨part, hpart, hv⟩))) (hbody part hpart))
      (hhead.congr fun v hv => hagree v (List.mem_append_right _ hv))
  exact ⟨fact', .derive hclause' (hcomplete.admits hsimulated.respected') (fun _ h => h) hbody'
    hhead', hrelated⟩

/-! ## Queries -/

namespace Query

/-- The condition of a query can hold for some facts. -/
def SatisfiableFor (facts : Fact → Prop) (query : Query) : Prop :=
  ∃ env : Valuation, env.Admits query.condition.vars ∧ query.condition.Holds facts env

/-- The condition of a query can hold in the least model of some clauses. -/
def Satisfiable (clauses : List Clause) (query : Query) : Prop :=
  query.SatisfiableFor (Derivable clauses)

/-- A query that is satisfiable for some facts is satisfiable for related facts. -/
def Kept (related : Fact → Fact → Prop) (query : Query) : Prop :=
  ∀ facts facts' : Fact → Prop, Covers related facts facts' →
    query.SatisfiableFor facts → query.SatisfiableFor facts'

end Query

end DalvikHorn
