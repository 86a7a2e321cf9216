import DalvikHorn.Proofs.Failures
import DalvikHorn.Proofs.Simulation

/-!
# Parallel compilations

A program that is compiled in two environments gives two stores.  When the clauses of
the second environment simulate those of the first, instruction by instruction, the
two compilations take the same way: they skip the same methods, declare the same
relations and ask the same queries, or they fail with the same error
(`Program.compile_parallel`).  What is derivable and satisfiable in the first store
then has a counterpart in the second (`Store.Parallel.covers`).

Conflicts are decided by the declarations of atoms, so counterparts have to apply the
same relations at the same sorts, and to be dropped together.
-/

namespace DalvikHorn

/-! ## Outcomes -/

section Outcomes

variable {α β γ δ : Type} {related : α → β → Prop} {outcome : Except Error α}
  {outcome' : Except Error β}

/-- Two computations end in the same way: with one error, or with related results. -/
inductive Parallel (related : α → β → Prop) : Except Error α → Except Error β → Prop
  | ok {result : α} {result' : β} (h : related result result') :
      Parallel related (.ok result) (.ok result')
  | error (cause : Error) : Parallel related (.error cause) (.error cause)

namespace Parallel

theorem pure {result : α} {result' : β} (h : related result result') :
    Parallel related (Pure.pure result) (Pure.pure result') :=
  .ok h

theorem mono {weaker : α → β → Prop} (h : Parallel related outcome outcome')
    (himp : ∀ result result', related result result' → weaker result result') :
    Parallel weaker outcome outcome' := by
  cases h with
  | ok h => exact .ok (himp _ _ h)
  | error cause => exact .error cause

/-- When both sides are one computation, its result is related to itself. -/
theorem mono_same {pairs weaker : α → α → Prop} (h : Parallel pairs outcome outcome)
    (himp : ∀ result, pairs result result → weaker result result) :
    Parallel weaker outcome outcome := by
  cases outcome with
  | error cause => exact .error cause
  | ok result =>
      cases h with
      | ok h => exact .ok (himp result h)

theorem bind {after : γ → δ → Prop} {next : α → Except Error γ} {next' : β → Except Error δ}
    (h : Parallel related outcome outcome')
    (hnext : ∀ result result', related result result' →
      Parallel after (next result) (next' result')) :
    Parallel after (outcome >>= next) (outcome' >>= next') := by
  cases h with
  | ok h => exact hnext _ _ h
  | error cause => exact .error cause

/-- A computation that both sides make. -/
theorem bind_same {property : α → Prop} {after : γ → δ → Prop} {next : α → Except Error γ}
    {next' : α → Except Error δ} (h : Yields outcome property)
    (hnext : ∀ result, property result → Parallel after (next result) (next' result)) :
    Parallel after (outcome >>= next) (outcome >>= next') := by
  cases houtcome : outcome with
  | error cause => exact .error cause
  | ok result => exact hnext result (h.result result houtcome)

theorem map {after : γ → δ → Prop} {f : α → γ} {f' : β → δ}
    (h : Parallel related outcome outcome')
    (hmap : ∀ result result', related result result' → after (f result) (f' result')) :
    Parallel after (outcome.map f) (outcome'.map f') := by
  cases h with
  | ok h => exact .ok (hmap _ _ h)
  | error cause => exact .error cause

end Parallel

end Outcomes

/-! ## Clauses -/

/-- A clause has a counterpart that simulates it, applies the same relations at the same sorts and
is dropped together with it. -/
structure Clause.Parallel (width : Nat) (related : Fact → Fact → Prop) (clause clause' : Clause) :
    Prop extends clause.SimulatedBy width related clause' where
  declarations_eq : clause.atoms.map Atom.declaration = clause'.atoms.map Atom.declaration
  isVacuous_eq : clause.isVacuous = clause'.isVacuous

section

variable {width : Nat} {related : Fact → Fact → Prop} {clauses clauses' : List Clause}

/-- A relation whose facts are related to themselves only. -/
def Unchanged (related : Fact → Fact → Prop) (relation : String) : Prop :=
  ∀ fact fact', fact.relation = relation → related fact fact' → fact' = fact

/-- A clause that only reads unchanged facts derives from them what it derives. -/
theorem Clause.parallel_self {clause : Clause} (hrespected : Names.Respected width clause.vars)
    (hbody : ∀ part ∈ clause.body, part.applications = [] ∨
      ∃ atom : Atom, part = atom.toFormula ∧ Unchanged related atom.relation)
    (hhead : ∀ fact, fact.relation = clause.head.relation → related fact fact) :
    clause.Parallel width related clause where
  respected := hrespected
  respected' := hrespected
  derives := by
    intro facts facts' hcovers env fact henv hparts hfact
    refine ⟨env, fact, henv, fun part hpart => ?_, hfact, hhead fact hfact.relation_eq.symm⟩
    rcases hbody part hpart with happlications | ⟨atom, rfl, hatom⟩
    · exact (Formula.holds_iff_eval part happlications).mpr
        ((Formula.holds_iff_eval part happlications).mp (hparts part hpart))
    · obtain ⟨premise, hpremise, hdenotes⟩ := Formula.holds_atom.mp (hparts _ hpart)
      obtain ⟨premise', hpremise', hrelated⟩ := hcovers premise hpremise
      rw [hatom premise premise' hdenotes.relation_eq.symm hrelated] at hpremise'
      exact Formula.holds_atom.mpr ⟨premise, hpremise', hdenotes⟩
  declarations_eq := rfl
  isVacuous_eq := rfl

/-- The rules of reachability read nothing but what is reachable. -/
theorem parallel_reachabilityRules (hunchanged : Unchanged related Relation.reach.name)
    (hrelated : ∀ relation : Relation, relation = .reach ∨ relation = .filter →
      ∀ fact : Fact, fact.relation = relation.name → related fact fact)
    {layout : HeapLayout}
    (hrespected : ∀ clause ∈ reachabilityRules layout width, Names.Respected width clause.vars) :
    ∀ clause ∈ reachabilityRules layout width, clause.Parallel width related clause := by
  intro clause hclause
  have hvars := hrespected clause hclause
  have hslot : ∀ k, (HeapSlot.canonical Names.ownHeap k width).Sorted width :=
    HeapSlot.sorted_canonical Names.isHeap_ownHeap
  simp only [reachabilityRules, List.cons_append, List.mem_cons, List.mem_append] at hclause
  rcases hclause with rfl | hclause | hclause
  · exact Clause.parallel_self hvars (by simp [Clause.fact]) (hrelated .reach (.inl rfl))
  · obtain ⟨site, -, hclause⟩ := List.mem_flatMap.mp hclause
    obtain ⟨k, -, rfl⟩ := List.mem_map.mp hclause
    refine Clause.parallel_self hvars (List.forall_mem_cons.mpr ⟨.inr ⟨_, rfl, hunchanged⟩,
      List.forall_mem_cons.mpr ⟨.inl (hslot k).cell.isLocal.applications,
        List.forall_mem_singleton.mpr (.inl ?_)⟩⟩) (hrelated .reach (.inl rfl))
    refine (Formula.sorted_any fun part hpart => ?_ : Formula.Sorted width _).applications
    obtain ⟨id, hid, rfl⟩ := List.mem_map.mp hpart
    obtain ⟨other, -, rfl⟩ := List.mem_map.mp hid
    exact (hslot k).cell.value.eqTo (GlobalHeap.sorted_idLiteral _)
  · obtain ⟨j, hj, rfl⟩ := List.mem_mapIdx.mp hclause
    exact Clause.parallel_self hvars (List.forall_mem_singleton.mpr (.inr ⟨_, rfl, hunchanged⟩))
      (hrelated .filter (.inr rfl))

theorem declarations_eq_of_parallel
    (h : List.Forall₂ (Clause.Parallel width related) clauses clauses') :
    (clauses.flatMap Clause.atoms).map Atom.declaration =
      (clauses'.flatMap Clause.atoms).map Atom.declaration := by
  induction h with
  | nil => rfl
  | cons hclause _ ih =>
      rw [List.flatMap_cons, List.flatMap_cons, List.map_append, List.map_append, ih,
        hclause.declarations_eq]

/-! ## Emissions -/

/-- What an instruction or a method contributes in two environments. -/
structure Emission.Parallel (width : Nat) (related : Fact → Fact → Prop)
    (emission emission' : Emission) : Prop where
  clauses : List.Forall₂ (Clause.Parallel width related) emission.clauses emission'.clauses
  queries_eq : emission'.queries = emission.queries
  kept : ∀ query ∈ emission.queries, query.Kept related
  callsSink_eq : emission'.callsSink = emission.callsSink

namespace Emission

/-- Emissions with the same queries, whose clauses are paired. -/
structure Matched (pairs : Clause → Clause → Prop) (emission emission' : Emission) : Prop where
  clauses : List.Forall₂ pairs emission.clauses emission'.clauses
  queries_eq : emission'.queries = emission.queries
  callsSink_eq : emission'.callsSink = emission.callsSink

section Matched

variable {pairs : Clause → Clause → Prop}

/-- Clauses that derive nothing are dropped on both sides. -/
theorem matched_ofClauses
    (hpairs : ∀ clause clause', pairs clause clause' → clause.isVacuous = clause'.isVacuous)
    (h : List.Forall₂ pairs clauses clauses') :
    Matched pairs (ofClauses clauses) (ofClauses clauses') where
  clauses := by
    unfold ofClauses
    dsimp only
    induction h with
    | nil => exact .nil
    | @cons clause clause' _ _ hclause _ ih =>
        rw [List.filter_cons, List.filter_cons, hpairs clause clause' hclause]
        split
        · exact .cons hclause ih
        · exact ih
  queries_eq := rfl
  callsSink_eq := rfl

/-- When paired clauses are parallel, so are matched emissions. -/
theorem Matched.parallel {emission emission' : Emission} (h : Matched pairs emission emission')
    (hpairs : ∀ clause ∈ emission.clauses, ∀ clause' ∈ emission'.clauses, pairs clause clause' →
      clause.Parallel width related clause')
    (hkept : ∀ query ∈ emission.queries, query.Kept related) :
    emission.Parallel width related emission' where
  clauses := by
    refine List.forall₂_iff_get.mpr ⟨h.clauses.length_eq, fun i hi hi' => ?_⟩
    exact hpairs _ (List.getElem_mem hi) _ (List.getElem_mem hi')
      ((List.forall₂_iff_get.mp h.clauses).2 i hi hi')
  queries_eq := h.queries_eq
  kept := hkept
  callsSink_eq := h.callsSink_eq

end Matched

theorem parallel_empty : Emission.Parallel width related {} {} where
  clauses := .nil
  queries_eq := rfl
  kept := by simp
  callsSink_eq := rfl

theorem Parallel.append {first first' second second' : Emission}
    (hfirst : first.Parallel width related first')
    (hsecond : second.Parallel width related second') :
    (first.append second).Parallel width related (first'.append second') where
  clauses := List.rel_append hfirst.clauses hsecond.clauses
  queries_eq := by rw [Emission.append, Emission.append, hfirst.queries_eq, hsecond.queries_eq]
  kept := List.forall_mem_append.mpr ⟨hfirst.kept, hsecond.kept⟩
  callsSink_eq := by
    rw [Emission.append, Emission.append, hfirst.callsSink_eq, hsecond.callsSink_eq]

theorem parallel_join {emissions emissions' : List Emission}
    (h : List.Forall₂ (Emission.Parallel width related) emissions emissions') :
    (join emissions).Parallel width related (join emissions') := by
  have hfold : ∀ start start' : Emission, start.Parallel width related start' →
      (emissions.foldl append start).Parallel width related (emissions'.foldl append start') := by
    induction h with
    | nil => exact fun _ _ hstart => hstart
    | cons hfirst _ ih => exact fun _ _ hstart => ih _ _ (hstart.append hfirst)
  exact hfold {} {} parallel_empty

/-- Parallel emissions are counted in the same way. -/
theorem Parallel.record_eq {emission emission' : Emission}
    (h : emission.Parallel width related emission') (tally : Tally) :
    tally.record emission' = tally.record emission := by
  have hnames : (emission'.clauses.flatMap Clause.atoms).map (·.relation) =
      (emission.clauses.flatMap Clause.atoms).map (·.relation) := by
    have hdecls := congrArg (List.map RelationDecl.name) (declarations_eq_of_parallel h.clauses)
    rw [List.map_map, List.map_map] at hdecls
    exact hdecls.symm
  simp only [Tally.record, List.map_append, hnames, h.queries_eq, h.clauses.length_eq]

end Emission

/-! ## Stores -/

/-- Stores with the same declarations and queries, whose clauses are counterparts. -/
structure Store.Parallel (width : Nat) (related : Fact → Fact → Prop) (store store' : Store) :
    Prop where
  relations_eq : store'.relations = store.relations
  clauses : List.Forall₂ (Clause.Parallel width related) store.clauses store'.clauses
  queries_eq : store'.queries = store.queries
  kept : ∀ query ∈ store.queries, query.Kept related
  sinkMethods_eq : store'.sinkMethods = store.sinkMethods

namespace Store

variable {store store' : Store}

theorem parallel_empty : Store.Parallel width related .empty .empty :=
  ⟨rfl, .nil, rfl, by simp [Store.empty], rfl⟩

/-- Two operations leave parallel stores behind, and are stopped by one conflict or by none. -/
def ParallelAfter (width : Nat) (related : Fact → Fact → Prop)
    (outcome outcome' : Store × Option Error) : Prop :=
  outcome.1.Parallel width related outcome'.1 ∧ outcome'.2 = outcome.2

theorem Parallel.declare (h : store.Parallel width related store') {atom atom' : Atom}
    (hdecl : atom.declaration = atom'.declaration) :
    DalvikHorn.Parallel (Store.Parallel width related) (store.declare atom)
      (store'.declare atom') := by
  simp only [Atom.declaration, RelationDecl.mk.injEq] at hdecl
  have harity : atom'.arity = atom.arity := by
    have hlength := congrArg List.length hdecl.2
    simpa [Atom.signature, Atom.arity] using hlength.symm
  have hfound : store'.relation? atom'.relation = store.relation? atom.relation := by
    rw [relation?, relation?, h.relations_eq, hdecl.1]
  unfold Store.declare
  rw [hfound, ← hdecl.1, ← hdecl.2, harity]
  cases store.relation? atom.relation with
  | none => exact .ok ⟨by rw [h.relations_eq], h.clauses, h.queries_eq, h.kept, h.sinkMethods_eq⟩
  | some decl =>
      dsimp only
      split
      · exact .ok h
      · exact .error _

theorem Parallel.declareAll (h : store.Parallel width related store') {atoms atoms' : List Atom}
    (hdecls : atoms.map Atom.declaration = atoms'.map Atom.declaration) :
    ParallelAfter width related (store.declareAll atoms) (store'.declareAll atoms') := by
  induction atoms generalizing store store' atoms' with
  | nil =>
      cases atoms' with
      | nil => exact ⟨h, rfl⟩
      | cons atom rest => cases hdecls
  | cons atom rest ih =>
      cases atoms' with
      | nil => cases hdecls
      | cons atom' rest' =>
          simp only [List.map_cons, List.cons.injEq] at hdecls
          have hdeclared := h.declare hdecls.1
          rw [Store.declareAll, Store.declareAll]
          generalize store.declare atom = outcome at hdeclared ⊢
          generalize store'.declare atom' = outcome' at hdeclared ⊢
          cases hdeclared with
          | ok hnext => exact ih hnext hdecls.2
          | error cause => exact ⟨h, rfl⟩

theorem Parallel.addClauses (h : store.Parallel width related store')
    (hclauses : List.Forall₂ (Clause.Parallel width related) clauses clauses') :
    ParallelAfter width related (store.addClauses clauses) (store'.addClauses clauses') := by
  have hdeclared := h.declareAll (declarations_eq_of_parallel hclauses)
  unfold Store.addClauses
  generalize store.declareAll _ = outcome at hdeclared ⊢
  generalize store'.declareAll _ = outcome' at hdeclared ⊢
  obtain ⟨next, conflict⟩ := outcome
  obtain ⟨next', conflict'⟩ := outcome'
  obtain ⟨hnext, rfl⟩ := hdeclared
  cases conflict' with
  | none =>
      exact ⟨⟨hnext.relations_eq, List.rel_append hnext.clauses hclauses, hnext.queries_eq,
        hnext.kept, hnext.sinkMethods_eq⟩, rfl⟩
  | some cause => exact ⟨hnext, rfl⟩

theorem Parallel.addQuery (h : store.Parallel width related store') {query : Query}
    (hquery : query.Kept related) :
    ParallelAfter width related (store.addQuery query) (store'.addQuery query) := by
  have hdeclared := h.declareAll (rfl : query.condition.atoms.map Atom.declaration = _)
  unfold Store.addQuery
  generalize store.declareAll _ = outcome at hdeclared ⊢
  generalize store'.declareAll _ = outcome' at hdeclared ⊢
  obtain ⟨next, conflict⟩ := outcome
  obtain ⟨next', conflict'⟩ := outcome'
  obtain ⟨hnext, rfl⟩ := hdeclared
  cases conflict' with
  | none =>
      exact ⟨⟨hnext.relations_eq, hnext.clauses, congrArg (· ++ [query]) hnext.queries_eq,
        List.forall_mem_append.mpr ⟨hnext.kept, List.forall_mem_singleton.mpr hquery⟩,
        hnext.sinkMethods_eq⟩, rfl⟩
  | some cause => exact ⟨hnext, rfl⟩

theorem Parallel.addQueries (h : store.Parallel width related store') {queries : List Query}
    (hqueries : ∀ query ∈ queries, query.Kept related) :
    ParallelAfter width related (store.addQueries queries) (store'.addQueries queries) := by
  induction queries generalizing store store' with
  | nil => exact ⟨h, rfl⟩
  | cons query rest ih =>
      rw [List.forall_mem_cons] at hqueries
      have hadded := h.addQuery hqueries.1
      rw [Store.addQueries, Store.addQueries]
      generalize store.addQuery query = outcome at hadded ⊢
      generalize store'.addQuery query = outcome' at hadded ⊢
      obtain ⟨next, conflict⟩ := outcome
      obtain ⟨next', conflict'⟩ := outcome'
      obtain ⟨hnext, rfl⟩ := hadded
      cases conflict' with
      | none => exact ih hnext hqueries.2
      | some cause => exact ⟨hnext, rfl⟩

theorem Parallel.markSinkMethod (h : store.Parallel width related store') (owner : ClassId)
    (method : MethodId) :
    (store.markSinkMethod owner method).Parallel width related
      (store'.markSinkMethod owner method) := by
  have hknown : store'.isSinkMethod owner method = store.isSinkMethod owner method := by
    rw [isSinkMethod, isSinkMethod, h.sinkMethods_eq]
  unfold Store.markSinkMethod
  rw [hknown]
  split
  · exact h
  · exact ⟨h.relations_eq, h.clauses, h.queries_eq, h.kept, by rw [h.sinkMethods_eq]⟩

theorem Parallel.emission (h : store.Parallel width related store') {emission emission' : Emission}
    (hemission : emission.Parallel width related emission') (owner : ClassId) (method : MethodId) :
    ParallelAfter width related (emission.store .together owner method store)
      (emission'.store .together owner method store') := by
  unfold Emission.store
  dsimp only [StoreMode.addClauses]
  rw [hemission.callsSink_eq, hemission.queries_eq]
  have hmarked : (if emission.callsSink then store.markSinkMethod owner method else store).Parallel
      width related
      (if emission.callsSink then store'.markSinkMethod owner method else store') := by
    split
    · exact h.markSinkMethod owner method
    · exact h
  have hadded := hmarked.addClauses hemission.clauses
  generalize Store.addClauses _ emission.clauses = outcome at hadded ⊢
  generalize Store.addClauses _ emission'.clauses = outcome' at hadded ⊢
  obtain ⟨next, conflict⟩ := outcome
  obtain ⟨next', conflict'⟩ := outcome'
  obtain ⟨hnext, rfl⟩ := hadded
  cases conflict' with
  | none => exact hnext.addQueries hemission.kept
  | some cause => exact ⟨hnext, rfl⟩

/-- What the first store derives has a counterpart that the second one derives. -/
theorem Parallel.covers (h : store.Parallel width related store') :
    Covers related (Derivable store.clauses) (Derivable store'.clauses) := by
  have hclauses : ∀ clause ∈ store.clauses, ∃ clause' ∈ store'.clauses,
      clause.SimulatedBy width related clause' := by
    intro clause hclause
    obtain ⟨i, hi, rfl⟩ := List.mem_iff_getElem.mp hclause
    have hi' : i < store'.clauses.length := h.clauses.length_eq ▸ hi
    have hparallel := (List.forall₂_iff_get.mp h.clauses).2 i hi hi'
    exact ⟨store'.clauses[i], List.getElem_mem hi', hparallel.toSimulatedBy⟩
  exact Derivable.simulated hclauses

theorem Parallel.satisfiable (h : store.Parallel width related store') {query : Query}
    (hquery : query ∈ store.queries) (hsatisfiable : query.Satisfiable store.clauses) :
    query.Satisfiable store'.clauses :=
  h.kept query hquery _ _ h.covers hsatisfiable

end Store

/-! ## Programs -/

namespace Program

variable {program : Program} {config config' : Config} {labels labels' : Labels}

/-- A method contributes in parallel what its instructions contribute in parallel. -/
theorem parallel_methodEmission {env env' : Environment} {entry : Class × Method}
    (hsteps : ∀ index instruction, entry.2.instructions[index]? = some instruction →
      (env.stepContext 0 entry.1 entry.2 index instruction).emission.Parallel width related
        (env'.stepContext 0 entry.1 entry.2 index instruction).emission) :
    (methodEmission env entry).Parallel width related (methodEmission env' entry) := by
  refine Emission.parallel_join ?_
  unfold methodContexts
  split
  · refine List.forall₂_iff_get.mpr ⟨by simp, fun i hi hi' => ?_⟩
    have hlength : i < entry.2.instructions.length := by simpa using hi
    have hstep := hsteps i _ (List.getElem?_eq_getElem hlength)
    simpa using hstep
  · exact .nil

section Runs

variable (hmethods : ∀ entry ∈ program.methods, entry.2.shape.WellFormed →
  (methodEmission (program.environment config labels) entry).Parallel width related
    (methodEmission (program.environment config' labels') entry))

include hmethods

/-- Two runs over the methods of a program store and skip the same methods. -/
theorem parallel_compileMethods {methods : List (Class × Method)}
    (hmem : ∀ entry ∈ methods, entry ∈ program.methods) (requests requests' : Nat) (tally : Tally)
    {store store' : Store} (hstore : store.Parallel width related store') :
    DalvikHorn.Parallel (fun final final' => final.1 = final'.1 ∧
        final.2.Parallel width related final'.2)
      ((program.environment config labels).compileMethods .together requests tally store methods)
      ((program.environment config' labels').compileMethods .together requests' tally store'
        methods) := by
  induction methods generalizing requests requests' tally store store' with
  | nil => exact .ok ⟨rfl, hstore⟩
  | cons entry rest ih =>
      have hrest : ∀ other ∈ rest, other ∈ program.methods := fun other hother =>
        hmem other (List.mem_cons_of_mem _ hother)
      have hentry : entry ∈ program.methods := hmem entry List.mem_cons_self
      by_cases hshape : entry.2.shape.WellFormed
      · -- both runs compile the method and store what corresponds
        obtain ⟨after, hrun⟩ := @compileMethods_of_wellFormed program config labels entry rest
          hentry hshape requests tally store
        obtain ⟨after', hrun'⟩ := @compileMethods_of_wellFormed program config' labels' entry rest
          hentry hshape requests' tally store'
        have hemission := hmethods entry hentry hshape
        have hstored := hstore.emission hemission entry.1.id entry.2.id
        have hcompiled : tally.compiled (methodEmission (program.environment config' labels') entry)
            = tally.compiled (methodEmission (program.environment config labels) entry) := by
          rw [Tally.compiled, Tally.compiled, hemission.record_eq]
        rw [hrun, hrun', hcompiled]
        generalize Emission.store _ _ _ _ store = outcome at hstored ⊢
        generalize Emission.store _ _ _ _ store' = outcome' at hstored ⊢
        obtain ⟨next, conflict⟩ := outcome
        obtain ⟨next', conflict'⟩ := outcome'
        obtain ⟨hnext, rfl⟩ := hstored
        -- a conflict counts the method as skipped, in both runs
        cases conflict' with
        | none => exact ih hrest after after' _ hnext
        | some cause => exact ih hrest after after' _ hnext
      · -- both runs skip the method
        obtain ⟨after, hrun⟩ := @compileMethods_of_not_wellFormed program config labels entry rest
          hshape requests tally store
        obtain ⟨after', hrun'⟩ := @compileMethods_of_not_wellFormed program config' labels' entry
          rest hshape requests' tally store'
        rw [hrun, hrun']
        exact ih hrest after after' _ hstore

/-- When facts and instructions are compiled to counterparts, two compilations of a program fail
with one error, or end with parallel stores and one report. -/
theorem compile_parallel (hvalid : config.validate = .ok ()) (hvalid' : config'.validate = .ok ())
    (hlabels : config.labels = .ok labels) (hlabels' : config'.labels = .ok labels')
    (hfacts : List.Forall₂ (Clause.Parallel width related)
      ((program.environment config labels).factClauses program)
      ((program.environment config' labels').factClauses program)) :
    DalvikHorn.Parallel (fun compilation compilation' =>
        compilation.store.Parallel width related compilation'.store ∧
          compilation'.report = compilation.report)
      (program.compile config) (program.compile config') := by
  rw [compile_eq_fill hvalid hlabels, compile_eq_fill hvalid' hlabels']
  unfold fill
  dsimp only
  rw [Environment.facts_eq (fun _ => rfl), Environment.facts_eq (fun _ => rfl)]
  dsimp only [Bind.bind, Except.bind]
  -- both runs store the facts or meet the same conflict
  have hadded := Store.parallel_empty.addClauses hfacts
  have hemission : Emission.Parallel width related
      { clauses := (program.environment config labels).factClauses program }
      { clauses := (program.environment config' labels').factClauses program } :=
    ⟨hfacts, rfl, List.forall_mem_nil _, rfl⟩
  rw [hemission.record_eq]
  generalize Store.addClauses _ _ = outcome at hadded ⊢
  generalize Store.addClauses _ _ = outcome' at hadded ⊢
  obtain ⟨store, conflict⟩ := outcome
  obtain ⟨store', conflict'⟩ := outcome'
  obtain ⟨hstore, rfl⟩ := hadded
  cases conflict' with
  | some cause => exact .error cause
  | none =>
      -- the methods follow, over stores that correspond
      have hrun := parallel_compileMethods hmethods (fun _ hentry => hentry)
        (program.localAllocations.length + Environment.factRequests program)
        (program.localAllocations.length + Environment.factRequests program)
        (Tally.record {}
          { clauses := (program.environment config labels).factClauses program }) hstore
      dsimp only
      generalize Environment.compileMethods (program.environment config labels) _ _ _ _ _ = outcome
        at hrun ⊢
      generalize Environment.compileMethods (program.environment config' labels') _ _ _ _ _ =
        outcome' at hrun ⊢
      cases hrun with
      | error cause => exact .error cause
      | ok hfinal => exact .ok ⟨hfinal.2, by rw [hfinal.1]⟩

end Runs

end Program

end

end DalvikHorn
