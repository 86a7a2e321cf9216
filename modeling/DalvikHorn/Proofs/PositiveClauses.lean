import Mathlib.Data.Set.Lattice
import Mathlib.Order.CompletePartialOrder
import DalvikHorn.Proofs.CompiledMethods
import DalvikHorn.Proofs.LeastModel

/-!
# Compiled programs are positive

The clauses of a program only make sense together if more facts never lead to fewer
consequences.  A relation under a negation, or in the condition of a term that is passed
on, would break this, and there would be no least set of facts to ask queries about.
This file shows that relations stand only where they may: as a whole part of a body or
as a head (`Clause.IsHorn`), and positively in queries (`Formula.Positive`).

## Strategy

* **Reading.**  `Formula.TrueIn` reads a formula in a set of facts whatever stands in it:
  an application is replaced by its truth value wherever it is, also under a negation,
  and the result is evaluated.  So nothing is monotone by definition, and a clause that
  negates a relation is not.
* **Monotonicity.**  Where relations stand only at the top, this reading is the one that
  derivations use (`Formula.IsLiteral.trueIn_iff`), so the consequences of clauses grow
  with the facts and what can be derived is the least model.
* **Emitters.**  What an instruction contributes is listed by `StepContext.Emitted`, so
  the cases are those of that list and of the facts of a program.
-/

namespace DalvikHorn

/-! ## Where relations stand -/

/-- A part of a body that applies a relation only as a whole, or not at all. -/
def Formula.IsLiteral (part : Formula) : Prop :=
  part.applications = [] ∨
    ∃ atom : Atom, part = atom.toFormula ∧ Term.applicationsList atom.args = []

/-- A clause that applies relations only as whole parts of its body and as its head. -/
structure Clause.IsHorn (clause : Clause) : Prop where
  body : ∀ part ∈ clause.body, part.IsLiteral
  head : Term.applicationsList clause.head.args = []

/-- A formula in which relations stand only under conjunctions and disjunctions. -/
inductive Formula.Positive : Formula → Prop
  | free {formula : Formula} (h : formula.applications = []) : Positive formula
  | app {relation : String} {args : List Term} (h : Term.applicationsList args = []) :
      Positive (.app relation args)
  | and {parts : List Formula} (h : ∀ part ∈ parts, Positive part) : Positive (.and parts)
  | or {parts : List Formula} (h : ∀ part ∈ parts, Positive part) : Positive (.or parts)

/-! ## Reading formulas in a set of facts -/

open Classical in
mutual

/-- A bit-vector term in which every application is replaced by its truth value. -/
noncomputable def BvExpr.resolve (facts : Set Fact) (env : Valuation) : BvExpr → BvExpr
  | .lit value width => .lit value width
  | .var name width => .var name width
  | .unary op operand => .unary op (operand.resolve facts env)
  | .binary op left right => .binary op (left.resolve facts env) (right.resolve facts env)
  | .ite condition yes no =>
      .ite (condition.resolve facts env) (yes.resolve facts env) (no.resolve facts env)

/-- A formula in which every application is replaced by its truth value. -/
noncomputable def Formula.resolve (facts : Set Fact) (env : Valuation) : Formula → Formula
  | .const value => .const value
  | .var name => .var name
  | .not inner => .not (inner.resolve facts env)
  | .and parts => .and (Formula.resolveList facts env parts)
  | .or parts => .or (Formula.resolveList facts env parts)
  | .compare op left right => .compare op (left.resolve facts env) (right.resolve facts env)
  | .app relation args =>
      .const (decide (∃ fact ∈ facts,
        (Atom.mk relation (Term.resolveList facts env args)).Denotes env fact))

/-- Formulas in which every application is replaced by its truth value. -/
noncomputable def Formula.resolveList (facts : Set Fact) (env : Valuation) :
    List Formula → List Formula
  | [] => []
  | part :: rest => part.resolve facts env :: Formula.resolveList facts env rest

/-- A term in which every application is replaced by its truth value. -/
noncomputable def Term.resolve (facts : Set Fact) (env : Valuation) : Term → Term
  | .bv expr => .bv (expr.resolve facts env)
  | .bool formula => .bool (formula.resolve facts env)
  | .int expr => .int expr

/-- Terms in which every application is replaced by its truth value. -/
noncomputable def Term.resolveList (facts : Set Fact) (env : Valuation) : List Term → List Term
  | [] => []
  | arg :: rest => arg.resolve facts env :: Term.resolveList facts env rest

end

/-- Whether a formula is true when the relations hold for some facts and no others. -/
def Formula.TrueIn (facts : Set Fact) (env : Valuation) (formula : Formula) : Prop :=
  (formula.resolve facts env).eval env = some true

/-- An atom whose arguments are read in a set of facts. -/
noncomputable def Atom.resolve (facts : Set Fact) (env : Valuation) (atom : Atom) : Atom where
  relation := atom.relation
  args := Term.resolveList facts env atom.args

/-- What some clauses derive from a set of facts in one step. -/
def consequences (clauses : List Clause) (facts : Set Fact) : Set Fact :=
  {fact | ∃ clause ∈ clauses, ∃ env : Valuation, env.Admits clause.vars ∧
    (∀ part ∈ clause.body, part.TrueIn facts env) ∧
      (clause.head.resolve facts env).Denotes env fact}

variable {facts more : Set Fact} {env : Valuation}

mutual

/-- Without relations there is nothing to replace. -/
theorem BvExpr.resolve_eq : ∀ expr : BvExpr, expr.applications = [] →
    expr.resolve facts env = expr
  | .lit _ _, _ => by rw [BvExpr.resolve]
  | .var _ _, _ => by rw [BvExpr.resolve]
  | .unary _ operand, h => by
      rw [BvExpr.applications] at h
      rw [BvExpr.resolve, BvExpr.resolve_eq operand h]
  | .binary _ left right, h => by
      rw [BvExpr.applications, List.append_eq_nil_iff] at h
      rw [BvExpr.resolve, BvExpr.resolve_eq left h.1, BvExpr.resolve_eq right h.2]
  | .ite condition yes no, h => by
      rw [BvExpr.applications, List.append_eq_nil_iff, List.append_eq_nil_iff] at h
      rw [BvExpr.resolve, Formula.resolve_eq condition h.1.1, BvExpr.resolve_eq yes h.1.2,
        BvExpr.resolve_eq no h.2]

theorem Formula.resolve_eq : ∀ formula : Formula, formula.applications = [] →
    formula.resolve facts env = formula
  | .const _, _ => by rw [Formula.resolve]
  | .var _, _ => by rw [Formula.resolve]
  | .not inner, h => by
      rw [Formula.applications] at h
      rw [Formula.resolve, Formula.resolve_eq inner h]
  | .and parts, h => by
      rw [Formula.applications] at h
      rw [Formula.resolve, Formula.resolveList_eq parts h]
  | .or parts, h => by
      rw [Formula.applications] at h
      rw [Formula.resolve, Formula.resolveList_eq parts h]
  | .compare _ left right, h => by
      rw [Formula.applications, List.append_eq_nil_iff] at h
      rw [Formula.resolve, BvExpr.resolve_eq left h.1, BvExpr.resolve_eq right h.2]
  | .app _ _, h => by simp at h

theorem Formula.resolveList_eq : ∀ parts : List Formula, Formula.applicationsList parts = [] →
    Formula.resolveList facts env parts = parts
  | [], _ => by rw [Formula.resolveList]
  | part :: rest, h => by
      rw [Formula.applicationsList, List.append_eq_nil_iff] at h
      rw [Formula.resolveList, Formula.resolve_eq part h.1, Formula.resolveList_eq rest h.2]

theorem Term.resolve_eq : ∀ term : Term, term.applications = [] → term.resolve facts env = term
  | .bv expr, h => by
      rw [Term.applications] at h
      rw [Term.resolve, BvExpr.resolve_eq expr h]
  | .bool formula, h => by
      rw [Term.applications] at h
      rw [Term.resolve, Formula.resolve_eq formula h]
  | .int _, _ => by rw [Term.resolve]

theorem Term.resolveList_eq : ∀ args : List Term, Term.applicationsList args = [] →
    Term.resolveList facts env args = args
  | [], _ => by rw [Term.resolveList]
  | arg :: rest, h => by
      rw [Term.applicationsList, List.append_eq_nil_iff] at h
      rw [Term.resolveList, Term.resolve_eq arg h.1, Term.resolveList_eq rest h.2]

end

namespace Formula

theorem trueIn_app {relation : String} {args : List Term}
    (hargs : Term.applicationsList args = []) :
    (app relation args).TrueIn facts env ↔
      ∃ fact ∈ facts, (Atom.mk relation args).Denotes env fact := by
  rw [TrueIn, resolve, eval, Term.resolveList_eq args hargs]
  simp

/-- A part of a body is read as derivations read it. -/
theorem IsLiteral.trueIn_iff {part : Formula} (h : part.IsLiteral) :
    part.TrueIn facts env ↔ part.Holds (· ∈ facts) env := by
  rcases h with hfree | ⟨atom, rfl, hargs⟩
  · rw [TrueIn, resolve_eq part hfree, holds_iff_eval part hfree]
  · rw [Atom.toFormula, trueIn_app hargs, Holds]

theorem trueIn_and_iff {parts : List Formula} :
    (and parts).TrueIn facts env ↔ ∀ part ∈ parts, part.TrueIn facts env := by
  rw [TrueIn, resolve, eval]
  induction parts with
  | nil => simp [resolveList, evalAll]
  | cons part rest ih =>
      rw [resolveList, evalAll, kleeneAnd_eq_true_iff, ih, List.forall_mem_cons, TrueIn]

theorem trueIn_or_iff {parts : List Formula} :
    (or parts).TrueIn facts env ↔ ∃ part ∈ parts, part.TrueIn facts env := by
  rw [TrueIn, resolve, eval]
  induction parts with
  | nil => simp [resolveList, evalAny]
  | cons part rest ih =>
      rw [resolveList, evalAny, kleeneOr_eq_true_iff, ih, List.exists_mem_cons_iff, TrueIn]

/-- A positive formula stays true when there are more facts. -/
theorem Positive.mono {formula : Formula} (h : formula.Positive) (hmore : facts ⊆ more) :
    formula.TrueIn facts env → formula.TrueIn more env := by
  induction h with
  | @free formula hfree =>
      rw [TrueIn, TrueIn, resolve_eq formula hfree, resolve_eq formula hfree]
      exact id
  | app hargs =>
      rw [trueIn_app hargs, trueIn_app hargs]
      exact fun ⟨fact, hfact, hdenotes⟩ => ⟨fact, hmore hfact, hdenotes⟩
  | and _ ih =>
      rw [trueIn_and_iff, trueIn_and_iff]
      exact fun htrue part hpart => ih part hpart (htrue part hpart)
  | or _ ih =>
      rw [trueIn_or_iff, trueIn_or_iff]
      exact fun ⟨part, hpart, htrue⟩ => ⟨part, hpart, ih part hpart htrue⟩

theorem IsLiteral.positive {part : Formula} (h : part.IsLiteral) : part.Positive := by
  rcases h with hfree | ⟨atom, rfl, hargs⟩
  · exact .free hfree
  · exact .app hargs

theorem positive_and_iff (parts : List Formula) :
    (and parts).Positive ↔ ∀ part ∈ parts, part.Positive := by
  refine ⟨fun h part hpart => ?_, .and⟩
  cases h with
  | free hfree =>
      refine .free (List.eq_nil_iff_forall_not_mem.mpr fun atom hatom => ?_)
      have hmem : atom ∈ (and parts).applications := by
        rw [applications]
        exact mem_applicationsList.mpr ⟨part, hpart, hatom⟩
      rw [hfree] at hmem
      cases hmem
  | and hparts => exact hparts part hpart

theorem positive_all {parts : List Formula} (h : ∀ part ∈ parts, part.Positive) :
    (all parts).Positive :=
  all_of_parts (fun _ => .free (by simp)) positive_and_iff h

end Formula

/-! ## Horn clauses -/

section Horn

variable {clauses : List Clause}

theorem mem_consequences_iff (hclauses : ∀ clause ∈ clauses, clause.IsHorn) {fact : Fact} :
    fact ∈ consequences clauses facts ↔ ∃ clause ∈ clauses, ∃ env : Valuation,
      env.Admits clause.vars ∧ (∀ part ∈ clause.body, part.Holds (· ∈ facts) env) ∧
        clause.head.Denotes env fact := by
  refine exists_congr fun clause => and_congr_right fun hclause => exists_congr fun env =>
    and_congr_right fun _ => and_congr ?_ ?_
  · exact forall₂_congr fun part hpart => ((hclauses clause hclause).body part hpart).trueIn_iff
  · rw [Atom.resolve, Term.resolveList_eq _ (hclauses clause hclause).head]

/-- The consequences of Horn clauses grow with the facts. -/
theorem monotone_consequences (hclauses : ∀ clause ∈ clauses, clause.IsHorn) :
    Monotone (consequences clauses) := by
  intro facts more hmore fact hfact
  rw [mem_consequences_iff hclauses] at hfact ⊢
  obtain ⟨clause, hclause, env, henv, hbody, hhead⟩ := hfact
  exact ⟨clause, hclause, env, henv,
    fun part hpart => Formula.Holds.mono (fun _ h => hmore h) part (hbody part hpart), hhead⟩

/-- What can be derived from Horn clauses is their least model. -/
theorem isLeast_derivable (hclauses : ∀ clause ∈ clauses, clause.IsHorn) :
    IsLeast {facts | consequences clauses facts ⊆ facts} {fact | Derivable clauses fact} := by
  constructor
  · intro fact hfact
    obtain ⟨clause, hclause, env, henv, hbody, hhead⟩ := (mem_consequences_iff hclauses).mp hfact
    exact derivable_models clauses clause hclause env fact henv hbody hhead
  · intro facts hfacts fact hfact
    have hmodels : Models clauses (· ∈ facts) := fun clause hclause env fact henv hbody hhead =>
      hfacts ((mem_consequences_iff hclauses).mpr ⟨clause, hclause, env, henv, hbody, hhead⟩)
    exact hfact.least hmodels

end Horn

-- A clause that negates a relation is not monotone: its fact follows from nothing, and no longer
-- once it is there.
example : ¬ Monotone (consequences [{ body := [.not (.app "p" [])], head := ⟨"p", []⟩ }]) := by
  intro hmonotone
  have hempty : (⟨"p", []⟩ : Fact) ∈
      consequences [{ body := [.not (.app "p" [])], head := ⟨"p", []⟩ }] ∅ := by
    refine ⟨_, List.mem_singleton_self _, Valuation.empty, ?_, ?_, rfl, ?_⟩
    · simp [Valuation.Admits, Clause.vars, Atom.vars]
    · simp [Formula.TrueIn, Formula.resolve, Formula.eval]
    · simp [Atom.resolve, Term.resolveList]
  obtain ⟨clause, hclause, env, -, hbody, -⟩ :=
    hmonotone (Set.empty_subset {⟨"p", []⟩}) hempty
  rw [List.mem_singleton.mp hclause] at hbody
  have htrue := hbody _ (List.mem_singleton_self _)
  have hdenotes : (Atom.mk "p" (Term.resolveList {⟨"p", []⟩} env [])).Denotes env ⟨"p", []⟩ :=
    ⟨rfl, by simp [Term.resolveList]⟩
  simp [Formula.TrueIn, Formula.resolve, Formula.eval, hdenotes] at htrue

/-! ## Emitters -/

section Emitters

variable {width : Nat}

theorem Term.applicationsList_eq_nil {args : List Term} (h : ∀ arg ∈ args, arg.Sorted width) :
    applicationsList args = [] := by
  refine List.eq_nil_iff_forall_not_mem.mpr fun atom hatom => ?_
  obtain ⟨arg, harg, hmem⟩ := mem_applicationsList.mp hatom
  rw [(h arg harg).applications] at hmem
  cases hmem

theorem Formula.Sorted.isLiteral {formula : Formula} (h : formula.Sorted width) :
    formula.IsLiteral :=
  .inl h.applications

theorem Atom.isLiteral {atom : Atom} (h : ∀ arg ∈ atom.args, arg.Sorted width) :
    atom.toFormula.IsLiteral :=
  .inr ⟨atom, rfl, Term.applicationsList_eq_nil h⟩

namespace StepContext

variable {cx : StepContext}

theorem isLiteral_current : cx.current.toFormula.IsLiteral :=
  Atom.isLiteral (sorted_args_pointAtom cx.sorted_pre)

theorem IsGuard.isLiteral {guard : Formula} (h : cx.IsGuard guard) : guard.IsLiteral := by
  rcases h with hsorted | ⟨atom, rfl, hfact⟩
  · exact hsorted.isLiteral
  · exact Atom.isLiteral hfact.sorted_args

/-- Every clause that an instruction can contribute is a Horn clause. -/
theorem Emitted.isHorn {clause : Clause} (h : cx.Emitted clause) : clause.IsHorn := by
  refine ⟨?_, Term.applicationsList_eq_nil h.sorted_head⟩
  cases h with
  | step hguards _ =>
      exact List.forall_mem_cons.mpr
        ⟨isLiteral_current, fun guard hguard => (hguards guard hguard).isLiteral⟩
  | fact hguards _ =>
      exact List.forall_mem_cons.mpr
        ⟨isLiteral_current, fun guard hguard => (hguards guard hguard).isLiteral⟩
  | enter hguards _ _ _ =>
      exact List.forall_mem_cons.mpr
        ⟨isLiteral_current, fun guard hguard => (hguards guard hguard).isLiteral⟩
  | @leave call target guards arguments high _ _ hguards _ harguments _ =>
      have hexit : (exitAtom target.owner target.method arguments cx.resultCell
          cx.returnedHeap).toFormula.IsLiteral :=
        Atom.isLiteral (sorted_args_awaitedExit harguments)
      exact List.forall_mem_cons.mpr ⟨isLiteral_current, List.forall_mem_cons.mpr
        ⟨hexit, fun guard hguard => (hguards guard hguard).isLiteral⟩⟩
  | startInitializer _ _ => exact List.forall_mem_singleton.mpr isLiteral_current
  | exit _ => exact List.forall_mem_singleton.mpr isLiteral_current

theorem Asked.positive {query : Query} (h : cx.Asked query) : query.condition.Positive := by
  obtain ⟨cell, hcell, hcondition⟩ := h
  rw [hcondition]
  exact Formula.positive_all (List.forall_mem_cons.mpr ⟨isLiteral_current.positive,
    List.forall_mem_singleton.mpr (.free hcell.sorted.high.applications)⟩)

end StepContext

/-! ## Facts of a program -/

theorem isHorn_activityResultRule (width : Nat) :
    (GlobalHeap.activityResultRule width).IsHorn := by
  refine ⟨?_, by simp [GlobalHeap.activityResultRule, GlobalHeap.object, GlobalHeap.namedKey,
    GlobalHeap.idLiteral, BvExpr.ofInt]⟩
  refine List.forall_mem_cons.mpr ⟨?_, List.forall_mem_cons.mpr
    ⟨?_, List.forall_mem_singleton.mpr ?_⟩⟩
  all_goals exact .inr ⟨_, rfl, by simp [GlobalHeap.object, GlobalHeap.namedKey,
    GlobalHeap.idLiteral, BvExpr.ofInt]⟩

theorem isHorn_reachabilityRules (layout : HeapLayout) (width : Nat) :
    ∀ clause ∈ reachabilityRules layout width, clause.IsHorn := by
  have hslot : ∀ k, (HeapSlot.canonical Names.ownHeap k width).Sorted width :=
    HeapSlot.sorted_canonical Names.isHeap_ownHeap
  have hheap : ∀ arg ∈ heapColumns (canonicalHeap Names.ownHeap layout.size width),
      arg.Sorted width := sorted_heapColumns (sorted_canonicalHeap Names.isHeap_ownHeap _)
  have hsource : (BvExpr.var Names.read width).Sorted width := BvExpr.sorted_auxiliary
  have hreach : ∀ {target : BvExpr}, target.Sorted width →
      ∀ arg ∈ (reachAtom (.var Names.read width) target
        (heapColumns (canonicalHeap Names.ownHeap layout.size width))).args, arg.Sorted width :=
    fun htarget => List.forall_mem_cons.mpr ⟨hsource, List.forall_mem_cons.mpr ⟨htarget, hheap⟩⟩
  have hid : ∀ id, (GlobalHeap.idLiteral width id).Sorted width := GlobalHeap.sorted_idLiteral
  unfold reachabilityRules
  dsimp only
  -- the reflexive rule, the rules of the slots, and those of the sites
  refine List.forall_mem_cons.mpr ⟨?_, List.forall_mem_append.mpr ⟨?_, ?_⟩⟩
  · exact ⟨by simp [Clause.fact], Term.applicationsList_eq_nil (hreach hsource)⟩
  · intro clause hclause
    obtain ⟨site, -, hclause⟩ := List.mem_flatMap.mp hclause
    obtain ⟨k, -, rfl⟩ := List.mem_map.mp hclause
    -- a reference is compared with the identifiers of all sites
    have hsites : ∀ part ∈ (layout.sites.map fun site => GlobalHeap.idLiteral width site.id).map
        (HeapSlot.canonical Names.ownHeap k width).cell.value.eqTo, part.Sorted width := by
      intro part hpart
      obtain ⟨id, hmem, rfl⟩ := List.mem_map.mp hpart
      obtain ⟨other, -, rfl⟩ := List.mem_map.mp hmem
      exact (hslot k).cell.value.eqTo (hid _)
    exact ⟨List.forall_mem_cons.mpr ⟨Atom.isLiteral (hreach (hid _)), List.forall_mem_cons.mpr
      ⟨(hslot k).cell.isLocal.isLiteral,
        List.forall_mem_singleton.mpr (Formula.sorted_any hsites).isLiteral⟩⟩,
      Term.applicationsList_eq_nil (hreach (hslot k).cell.value)⟩
  · intro clause hclause
    obtain ⟨j, hj, rfl⟩ := List.mem_mapIdx.mp hclause
    -- the marks are constants
    have hmarks : ∀ mark ∈ layout.sites.mapIdx fun i _ => Term.bool (.const (i == j)),
        mark.Sorted width := by
      intro mark hmark
      obtain ⟨i, hi, rfl⟩ := List.mem_mapIdx.mp hmark
      exact Formula.sorted_const _
    exact ⟨List.forall_mem_singleton.mpr (Atom.isLiteral (hreach (hid _))),
      Term.applicationsList_eq_nil (List.forall_mem_append.mpr ⟨List.forall_mem_cons.mpr ⟨hsource,
        List.forall_mem_cons.mpr ⟨(hslot _).free.negate, hheap⟩⟩, hmarks⟩)⟩

theorem isHorn_startClause (env : Environment) (owner : Class) (method : Method) :
    (env.startClause owner method).IsHorn := by
  have hstart : (env.startFrame (siteHash owner.id 0 0) method).Sorted method.shape
      env.layout.size env.width := Environment.sorted_startFrame _ method
  refine ⟨?_, Term.applicationsList_eq_nil (sorted_args_pointAtom hstart)⟩
  unfold Environment.startClause
  dsimp only
  split
  · simp
  · exact List.forall_mem_singleton.mpr (.inr ⟨_, rfl, by
      simp [Environment.launchGuard, GlobalHeap.launch, GlobalHeap.idLiteral, BvExpr.ofInt]⟩)

/-- Every fact of a program is a Horn clause. -/
theorem isHorn_factClauses (env : Environment) (program : Program) :
    ∀ clause ∈ env.factClauses program, clause.IsHorn := by
  unfold Environment.factClauses
  refine List.forall_mem_append.mpr ⟨List.forall_mem_append.mpr ⟨List.forall_mem_append.mpr
    ⟨?_, ?_⟩, ?_⟩, ?_⟩
  · split
    · exact List.forall_mem_singleton.mpr (isHorn_activityResultRule _)
    · simp
  · intro clause hclause
    obtain ⟨decl, -, hclause⟩ := List.mem_flatMap.mp hclause
    obtain ⟨field, -, hclause⟩ := List.mem_filterMap.mp hclause
    obtain ⟨value, -, rfl⟩ := Option.map_eq_some_iff.mp hclause
    exact ⟨by simp [Clause.fact], by simp [Clause.fact, GlobalHeap.static, BvExpr.ofInt]⟩
  · split
    · exact isHorn_reachabilityRules _ _
    · simp
  · intro clause hclause
    obtain ⟨⟨owner, method⟩, -, rfl⟩ := List.mem_map.mp hclause
    exact isHorn_startClause env owner method

end Emitters

/-! ## Programs -/

namespace Program

variable {program : Program} {config : Config}

/-- The clauses of a compiled program are Horn clauses and its queries positive, so the clauses are
monotone, what can be derived from them is their least model, and more facts answer no query with
less.  This holds in whichever order the methods are stored. -/
theorem compiled_clauses_positive {order : List (Class × Method)}
    (horder : order.Perm program.methods) {compilation : Compilation}
    (hcompile : program.compileInOrder config order = .ok compilation) :
    program.compile config = program.compileInOrder config program.methods ∧
    (∀ clause ∈ compilation.store.clauses, clause.IsHorn) ∧
      (∀ query ∈ compilation.store.queries, query.condition.Positive) ∧
      Monotone (consequences compilation.store.clauses) ∧
      IsLeast {facts | consequences compilation.store.clauses facts ⊆ facts}
        {fact | Derivable compilation.store.clauses fact} ∧
      ∀ query ∈ compilation.store.queries,
        Monotone fun facts => {env | query.condition.TrueIn facts env} := by
  obtain ⟨labels, -, houtcome⟩ := outcome_of_compileInOrder horder hcompile
  have hclauses : ∀ clause ∈ compilation.store.clauses, clause.IsHorn := by
    intro clause hclause
    rcases houtcome.clause_cases horder hclause with hfact | ⟨cx, hstep, hclause⟩
    · exact isHorn_factClauses _ program clause hfact
    · exact (hstep.emitted hclause).isHorn
  have hqueries : ∀ query ∈ compilation.store.queries, query.condition.Positive := by
    intro query hquery
    obtain ⟨cx, hstep, hquery⟩ := houtcome.exists_of_mem_queries horder hquery
    exact (hstep.asked hquery).positive
  refine ⟨compile_eq_compileInOrder program config, hclauses, hqueries,
    monotone_consequences hclauses, isLeast_derivable hclauses, ?_⟩
  intro query hquery facts more hmore env htrue
  exact (hqueries query hquery).mono hmore htrue

theorem compiled_clauses_positive_clashing :
    clashing.methods.reverse.Perm clashing.methods ∧
      ∃ compilation,
        clashing.compileInOrder sinkConfig clashing.methods.reverse = .ok compilation ∧
        compilation.report.clauses = 6 ∧ compilation.report.queries = 1 ∧
        (∀ clause ∈ compilation.store.clauses, clause.IsHorn) ∧
        (∀ query ∈ compilation.store.queries, query.condition.Positive) ∧
        IsLeast {facts | consequences compilation.store.clauses facts ⊆ facts}
          {fact | Derivable compilation.store.clauses fact} := by
  have hreverse : clashing.methods.reverse.Perm clashing.methods := List.reverse_perm _
  obtain ⟨compilation, hcompile, hreport⟩ := compileInOrder_clashing
  obtain ⟨-, hclauses, hqueries, -, hleast, -⟩ := compiled_clauses_positive hreverse hcompile
  exact ⟨hreverse, compilation, hcompile, by rw [hreport], by rw [hreport], hclauses, hqueries,
    hleast⟩

end Program

end DalvikHorn
