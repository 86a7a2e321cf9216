import DalvikHorn.Proofs.Signatures

/-!
# Storing admissible clauses

A store whose relations have the signatures of a program takes every admissible
clause and query: the declaration that it finds for a relation is the one that
the new application needs, so there is no conflict, and nothing but the new
clauses and queries is added.
-/

namespace DalvikHorn

/-! ## Atoms are applications -/

mutual

theorem Formula.mem_applications_of_mem_atoms {atom : Atom} :
    ∀ formula : Formula, atom ∈ formula.atoms → atom ∈ formula.applications
  | .app relation args, h => by
      simp only [Formula.atoms, List.mem_singleton] at h
      simp [Formula.applications, h]
  | .not inner, h => by
      simp only [Formula.atoms] at h
      simpa [Formula.applications] using Formula.mem_applications_of_mem_atoms inner h
  | .and parts, h => by
      simp only [Formula.atoms] at h
      simpa [Formula.applications] using Formula.mem_applicationsList_of_mem_atomsList parts h
  | .or parts, h => by
      simp only [Formula.atoms] at h
      simpa [Formula.applications] using Formula.mem_applicationsList_of_mem_atomsList parts h
  | .const _, h => by simp [Formula.atoms] at h
  | .var _, h => by simp [Formula.atoms] at h
  | .compare _ _ _, h => by simp [Formula.atoms] at h

theorem Formula.mem_applicationsList_of_mem_atomsList {atom : Atom} :
    ∀ parts : List Formula, atom ∈ Formula.atomsList parts → atom ∈ Formula.applicationsList parts
  | [], h => by simp [Formula.atomsList] at h
  | part :: rest, h => by
      simp only [Formula.atomsList, List.mem_append] at h
      simp only [Formula.applicationsList, List.mem_append]
      exact h.imp (Formula.mem_applications_of_mem_atoms part)
        (Formula.mem_applicationsList_of_mem_atomsList rest)

end

theorem Clause.mem_applications_of_mem_atoms {atom : Atom} {clause : Clause}
    (h : atom ∈ clause.atoms) : atom ∈ clause.applications := by
  rcases List.mem_append.mp h with hmem | hmem
  · exact List.mem_append_left _ (Formula.mem_applicationsList_of_mem_atomsList _ hmem)
  · rw [List.mem_singleton.mp hmem]
    exact List.mem_append_right _ List.mem_cons_self

/-! ## Stores -/

/-- A store whose declarations and contents fit a program. -/
structure Store.Admissible (program : Program) (width : Nat) (store : Store) : Prop where
  relations : ∀ decl ∈ store.relations, ∃ relation : Relation,
    decl.name = relation.name ∧ program.Signature width decl.signature relation
  clauses : ∀ clause ∈ store.clauses, clause.Admissible program width
  queries : ∀ query ∈ store.queries, query.condition.Admissible program width

/-- A store with some more declarations. -/
structure Store.Extends (first second : Store) : Prop where
  clauses_eq : second.clauses = first.clauses
  queries_eq : second.queries = first.queries

namespace Store

variable {program : Program} {width : Nat} {store : Store}

theorem admissible_empty : Store.empty.Admissible program width :=
  ⟨by simp [empty], by simp [empty], by simp [empty]⟩

theorem Admissible.of_extends {next : Store} (hstore : store.Admissible program width)
    (hextends : store.Extends next)
    (hrelations : ∀ decl ∈ next.relations, ∃ relation : Relation,
      decl.name = relation.name ∧ program.Signature width decl.signature relation) :
    next.Admissible program width :=
  ⟨hrelations, hextends.clauses_eq ▸ hstore.clauses, hextends.queries_eq ▸ hstore.queries⟩

theorem Admissible.declare (hshapes : program.ShapesAgree) (hstore : store.Admissible program width)
    {atom : Atom} (hatom : program.Relates width atom) :
    ∃ next, store.declare atom = .ok next ∧ store.Extends next ∧
      next.Admissible program width := by
  obtain ⟨relation, hname, hsignature⟩ := hatom
  unfold Store.declare
  cases hfound : store.relation? atom.relation with
  | none =>
      refine ⟨_, rfl, ⟨rfl, rfl⟩, hstore.of_extends ⟨rfl, rfl⟩ fun decl hdecl => ?_⟩
      rcases List.mem_append.mp hdecl with hmem | hmem
      · exact hstore.relations decl hmem
      · rw [List.mem_singleton.mp hmem]
        exact ⟨relation, hname, hsignature⟩
  | some decl =>
      obtain ⟨other, hother, hdeclared⟩ :=
        hstore.relations decl (List.mem_of_find?_eq_some hfound)
      have hdecl : decl.name = atom.relation := by simpa using List.find?_some hfound
      have hsame : other = relation := Relation.name_injective (by rw [← hother, hdecl, hname])
      subst hsame
      dsimp only
      rw [if_pos (hdeclared.unique hshapes hsignature)]
      exact ⟨store, rfl, ⟨rfl, rfl⟩, hstore⟩

theorem Admissible.declareAll (hshapes : program.ShapesAgree) {atoms : List Atom}
    (hatoms : ∀ atom ∈ atoms, program.Relates width atom)
    (hstore : store.Admissible program width) :
    ∃ next, store.declareAll atoms = (next, none) ∧ store.Extends next ∧
      next.Admissible program width := by
  induction atoms generalizing store with
  | nil => exact ⟨store, rfl, ⟨rfl, rfl⟩, hstore⟩
  | cons atom rest ih =>
      obtain ⟨declared, hdeclared, hextends, hadmissible⟩ :=
        hstore.declare hshapes (hatoms atom List.mem_cons_self)
      obtain ⟨next, hnext, hextends', hadmissible'⟩ :=
        ih (fun other hother => hatoms other (List.mem_cons_of_mem _ hother)) hadmissible
      refine ⟨next, ?_, ?_, hadmissible'⟩
      · simp only [Store.declareAll, hdeclared, hnext]
      · exact ⟨hextends'.clauses_eq.trans hextends.clauses_eq,
          hextends'.queries_eq.trans hextends.queries_eq⟩

theorem Admissible.addClauses (hshapes : program.ShapesAgree)
    (hstore : store.Admissible program width) {clauses : List Clause}
    (hclauses : ∀ clause ∈ clauses, clause.Admissible program width) :
    ∃ next, store.addClauses clauses = (next, none) ∧ next.Admissible program width ∧
      next.clauses = store.clauses ++ clauses ∧ next.queries = store.queries := by
  have hatoms : ∀ atom ∈ clauses.flatMap Clause.atoms, program.Relates width atom := by
    intro atom hatom
    obtain ⟨clause, hclause, hmem⟩ := List.mem_flatMap.mp hatom
    exact (hclauses clause hclause).applications atom (Clause.mem_applications_of_mem_atoms hmem)
  obtain ⟨declared, hdeclared, hextends, hadmissible⟩ := hstore.declareAll hshapes hatoms
  refine ⟨{ declared with clauses := declared.clauses ++ clauses }, ?_, ?_, ?_, ?_⟩
  · simp only [Store.addClauses, hdeclared]
  · exact ⟨hadmissible.relations, List.forall_mem_append.mpr ⟨hadmissible.clauses, hclauses⟩,
      hadmissible.queries⟩
  · rw [← hextends.clauses_eq]
  · exact hextends.queries_eq

theorem Admissible.addQueries (hshapes : program.ShapesAgree) {queries : List Query}
    (hqueries : ∀ query ∈ queries, query.condition.Admissible program width)
    (hstore : store.Admissible program width) :
    ∃ next, store.addQueries queries = (next, none) ∧ next.Admissible program width ∧
      next.clauses = store.clauses ∧ next.queries = store.queries ++ queries := by
  induction queries generalizing store with
  | nil => exact ⟨store, rfl, hstore, rfl, by simp⟩
  | cons query rest ih =>
      have hquery := hqueries query List.mem_cons_self
      obtain ⟨declared, hdeclared, hextends, hadmissible⟩ := hstore.declareAll hshapes
        fun atom hatom => hquery.applications atom (Formula.mem_applications_of_mem_atoms _ hatom)
      have hasked : Store.Admissible program width
          { declared with queries := declared.queries ++ [query] } :=
        ⟨hadmissible.relations, hadmissible.clauses, List.forall_mem_append.mpr
          ⟨hadmissible.queries, List.forall_mem_singleton.mpr hquery⟩⟩
      obtain ⟨next, hnext, hadmissible', hclauses, hqueries'⟩ :=
        ih (fun other hother => hqueries other (List.mem_cons_of_mem _ hother)) hasked
      refine ⟨next, ?_, hadmissible', ?_, ?_⟩
      · simp only [Store.addQueries, Store.addQuery, hdeclared, hnext]
      · rw [hclauses, ← hextends.clauses_eq]
      · rw [hqueries', hextends.queries_eq, List.append_assoc]
        rfl

theorem Admissible.markSinkMethod (hstore : store.Admissible program width) (owner : ClassId)
    (method : MethodId) : (store.markSinkMethod owner method).Admissible program width := by
  unfold Store.markSinkMethod
  split
  · exact hstore
  · exact ⟨hstore.relations, hstore.clauses, hstore.queries⟩

@[simp] theorem clauses_markSinkMethod (store : Store) (owner : ClassId) (method : MethodId) :
    (store.markSinkMethod owner method).clauses = store.clauses := by
  unfold Store.markSinkMethod
  split <;> rfl

@[simp] theorem queries_markSinkMethod (store : Store) (owner : ClassId) (method : MethodId) :
    (store.markSinkMethod owner method).queries = store.queries := by
  unfold Store.markSinkMethod
  split <;> rfl

end Store

/-! ## Emissions -/

namespace Emission

/-- An emission whose clauses and queries are admissible. -/
structure Admissible (program : Program) (width : Nat) (emission : Emission) : Prop where
  clauses : ∀ clause ∈ emission.clauses, clause.Admissible program width
  queries : ∀ query ∈ emission.queries, query.condition.Admissible program width

theorem clauses_foldl_append (emissions : List Emission) (start : Emission) :
    (emissions.foldl append start).clauses = start.clauses ++ emissions.flatMap (·.clauses) := by
  induction emissions generalizing start with
  | nil => simp
  | cons emission rest ih => simp [ih, append]

theorem queries_foldl_append (emissions : List Emission) (start : Emission) :
    (emissions.foldl append start).queries = start.queries ++ emissions.flatMap (·.queries) := by
  induction emissions generalizing start with
  | nil => simp
  | cons emission rest ih => simp [ih, append]

theorem clauses_join (emissions : List Emission) :
    (join emissions).clauses = emissions.flatMap (·.clauses) := by
  rw [join, clauses_foldl_append]
  rfl

theorem queries_join (emissions : List Emission) :
    (join emissions).queries = emissions.flatMap (·.queries) := by
  rw [join, queries_foldl_append]
  rfl

/-- An admissible emission is stored as it is. -/
theorem Admissible.store {program : Program} {width : Nat} {emission : Emission} {store : Store}
    (hshapes : program.ShapesAgree) (hemission : emission.Admissible program width)
    (hstore : store.Admissible program width) (owner : ClassId) (method : MethodId) :
    ∃ next, emission.store .together owner method store = (next, none) ∧
      next.Admissible program width ∧ next.clauses = store.clauses ++ emission.clauses ∧
      next.queries = store.queries ++ emission.queries := by
  have hmarked : ∃ marked : Store, marked =
      (if emission.callsSink then store.markSinkMethod owner method else store) ∧
      marked.Admissible program width ∧ marked.clauses = store.clauses ∧
      marked.queries = store.queries := by
    refine ⟨_, rfl, ?_⟩
    split
    · exact ⟨hstore.markSinkMethod owner method, by simp, by simp⟩
    · exact ⟨hstore, rfl, rfl⟩
  obtain ⟨marked, heq, hadmissible, hclauses, hqueries⟩ := hmarked
  obtain ⟨filled, hfilled, hadmissible', hclauses', hqueries'⟩ :=
    hadmissible.addClauses hshapes hemission.clauses
  obtain ⟨next, hnext, hadmissible'', hclauses'', hqueries''⟩ :=
    Store.Admissible.addQueries hshapes hemission.queries hadmissible'
  refine ⟨next, ?_, hadmissible'', ?_, ?_⟩
  · simp only [Emission.store, StoreMode.addClauses, ← heq, hfilled, hnext]
  · rw [hclauses'', hclauses', hclauses]
  · rw [hqueries'', hqueries', hqueries]

end Emission

end DalvikHorn
