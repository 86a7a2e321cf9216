import DalvikHorn.Proofs.Stored
import Mathlib.Data.List.Nodup

/-!
# What a store declares

A store declares a relation at its first application and checks every later one
against that declaration.  Whether a list of applications can be stored does
therefore not depend on its order: it can exactly when no relation is applied
with two signatures, the declarations that the store already has included
(`Compatible`).

A run that succeeds leaves a store whose contents are known up to the order of
its declarations (`Store.Filled`).  A run that fails does so with a conflict, and
a conflict never ends a compilation (`Emission.kind_of_store`).
-/

namespace DalvikHorn

/-- The declaration that an application asks for. -/
def Atom.declaration (atom : Atom) : RelationDecl where
  name := atom.relation
  signature := atom.signature

/-- No relation has two declarations. -/
def Compatible (decls : List RelationDecl) : Prop :=
  ∀ first ∈ decls, ∀ second ∈ decls, first.name = second.name → first = second

theorem Compatible.mono {decls fewer : List RelationDecl} (h : Compatible decls)
    (hsub : ∀ decl ∈ fewer, decl ∈ decls) : Compatible fewer := by
  intro first hfirst second hsecond hname
  exact h first (hsub first hfirst) second (hsub second hsecond) hname

namespace Store

variable {store next : Store}

/-- Every relation is declared once. -/
def DeclaresOnce (store : Store) : Prop :=
  (store.relations.map (·.name)).Nodup

theorem DeclaresOnce.compatible (h : store.DeclaresOnce) : Compatible store.relations := by
  intro first hfirst second hsecond hname
  exact List.inj_on_of_nodup_map h hfirst hsecond hname

theorem declaresOnce_empty : Store.empty.DeclaresOnce := by
  simp [DeclaresOnce, empty]

/-- A store with the declarations of some more applications, and otherwise the same. -/
structure Declared (store next : Store) (decls : List RelationDecl) : Prop
    extends store.Extends next where
  declaresOnce : next.DeclaresOnce
  mem_relations : ∀ decl, decl ∈ next.relations ↔ decl ∈ store.relations ∨ decl ∈ decls

theorem Declared.trans {last : Store} {first second : List RelationDecl}
    (h : store.Declared next first) (h' : next.Declared last second) :
    store.Declared last (first ++ second) where
  clauses_eq := h'.clauses_eq.trans h.clauses_eq
  queries_eq := h'.queries_eq.trans h.queries_eq
  declaresOnce := h'.declaresOnce
  mem_relations := by
    intro decl
    rw [h'.mem_relations, h.mem_relations, List.mem_append, or_assoc]

/-! ## One application -/

theorem mem_of_relation? {name : String} {decl : RelationDecl}
    (h : store.relation? name = some decl) : decl ∈ store.relations ∧ decl.name = name := by
  refine ⟨List.mem_of_find?_eq_some h, ?_⟩
  simpa using List.find?_some h

theorem notMem_of_relation? {name : String} (h : store.relation? name = none) :
    ∀ decl ∈ store.relations, decl.name ≠ name := by
  intro decl hdecl
  simpa using List.find?_eq_none.mp h decl hdecl

theorem kind_of_declare {atom : Atom} {cause : Error} (h : store.declare atom = .error cause) :
    cause.kind = .compile := by
  unfold declare at h
  split at h
  · cases h
  · split at h
    · cases h
    · cases h
      rfl

/-- An application is declared, or it differs from the declaration that it meets. -/
theorem DeclaresOnce.declare_cases (hstore : store.DeclaresOnce) (atom : Atom) :
    (∃ next, store.declare atom = .ok next ∧ store.Declared next [atom.declaration]) ∨
      ∃ cause, store.declare atom = .error cause ∧
        ¬ Compatible (store.relations ++ [atom.declaration]) := by
  unfold declare
  cases hfound : store.relation? atom.relation with
  | none =>
      have hfresh := notMem_of_relation? hfound
      refine .inl ⟨_, rfl, ⟨rfl, rfl⟩, ?_, ?_⟩
      · -- the name is new, so it is declared once behind the others
        have hnotMem : atom.relation ∉ store.relations.map (·.name) := by
          intro hmem
          obtain ⟨decl, hdecl, hname⟩ := List.mem_map.mp hmem
          exact hfresh decl hdecl hname
        rw [DeclaresOnce, List.map_append, List.nodup_append]
        refine ⟨hstore, by simp, ?_⟩
        intro name hname other hother heq
        rw [List.map_singleton, List.mem_singleton] at hother
        have hsame : name = atom.relation := heq.trans hother
        exact hnotMem (hsame ▸ hname)
      · intro decl
        rw [List.mem_append]
        rfl
  | some decl =>
      obtain ⟨hmem, hname⟩ := mem_of_relation? hfound
      dsimp only
      by_cases hsame : decl.signature = atom.signature
      · -- the relation is declared with the sorts of the application
        have hdecl : decl = atom.declaration := by
          cases decl
          simp_all [Atom.declaration]
        rw [if_pos hsame]
        refine .inl ⟨store, rfl, ⟨rfl, rfl⟩, hstore, ?_⟩
        intro other
        rw [List.mem_singleton]
        refine ⟨.inl, ?_⟩
        rintro (hother | rfl)
        · exact hother
        · exact hdecl ▸ hmem
      · rw [if_neg hsame]
        refine .inr ⟨_, rfl, fun hcompatible => hsame ?_⟩
        -- two declarations of one name would have the same sorts
        have hdecl := hcompatible decl (List.mem_append_left _ hmem) atom.declaration
          (List.mem_append_right _ (List.mem_singleton_self _)) hname
        rw [hdecl]
        rfl

/-! ## Lists of applications -/

theorem kind_of_declareAll {atoms : List Atom} {cause : Error}
    (h : (store.declareAll atoms).2 = some cause) : cause.kind = .compile := by
  induction atoms generalizing store with
  | nil => cases h
  | cons atom rest ih =>
      unfold declareAll at h
      split at h
      · rename_i conflict hconflict
        cases h
        exact kind_of_declare hconflict
      · exact ih h

/-- A list of applications is declared exactly when it is compatible with the store. -/
theorem DeclaresOnce.declareAll_cases (hstore : store.DeclaresOnce) (atoms : List Atom) :
    (∃ next, store.declareAll atoms = (next, none) ∧
        store.Declared next (atoms.map Atom.declaration)) ∨
      ∃ next cause, store.declareAll atoms = (next, some cause) ∧
        ¬ Compatible (store.relations ++ atoms.map Atom.declaration) := by
  induction atoms generalizing store with
  | nil => exact .inl ⟨store, rfl, ⟨rfl, rfl⟩, hstore, by simp⟩
  | cons atom rest ih =>
      rcases hstore.declare_cases atom with ⟨declared, hdeclared, hspec⟩ | ⟨cause, hcause, hne⟩
      · -- the first one is declared; the others are declared or meet a conflict
        rcases ih hspec.declaresOnce with ⟨next, hnext, hspec'⟩ | ⟨next, cause, hcause, hne⟩
        · refine .inl ⟨next, ?_, hspec.trans hspec'⟩
          simp only [declareAll, hdeclared, hnext]
        · refine .inr ⟨next, cause, ?_, fun hcompatible => hne (hcompatible.mono ?_)⟩
          · simp only [declareAll, hdeclared, hcause]
          · intro decl hdecl
            rw [List.mem_append, hspec.mem_relations] at hdecl
            simp only [List.mem_append, List.map_cons, List.mem_cons]
            rcases hdecl with (hdecl | hdecl) | hdecl
            · exact .inl hdecl
            · exact .inr (.inl (List.mem_singleton.mp hdecl))
            · exact .inr (.inr hdecl)
      · -- the first one meets a conflict already
        refine .inr ⟨store, cause, ?_, fun hcompatible => hne (hcompatible.mono ?_)⟩
        · simp only [declareAll, hcause]
        · intro decl hdecl
          rw [List.mem_append, List.mem_singleton] at hdecl
          rw [List.mem_append, List.map_cons, List.mem_cons]
          exact hdecl.imp_right .inl

end Store

/-! ## Clauses and queries -/

/-- The declarations that some clauses and queries ask for. -/
def declarations (clauses : List Clause) (queries : List Query) : List RelationDecl :=
  (clauses.flatMap Clause.atoms ++ queries.flatMap (·.condition.atoms)).map Atom.declaration

theorem mem_declarations {clauses : List Clause} {queries : List Query} {decl : RelationDecl} :
    decl ∈ declarations clauses queries ↔
      (∃ clause ∈ clauses, ∃ atom ∈ clause.atoms, atom.declaration = decl) ∨
        ∃ query ∈ queries, ∃ atom ∈ query.condition.atoms, atom.declaration = decl := by
  simp only [declarations, List.map_append, List.mem_append, List.mem_map, List.mem_flatMap]
  constructor
  · rintro (⟨atom, ⟨clause, hclause, hatom⟩, rfl⟩ | ⟨atom, ⟨query, hquery, hatom⟩, rfl⟩)
    · exact .inl ⟨clause, hclause, atom, hatom, rfl⟩
    · exact .inr ⟨query, hquery, atom, hatom, rfl⟩
  · rintro (⟨clause, hclause, atom, hatom, rfl⟩ | ⟨query, hquery, atom, hatom, rfl⟩)
    · exact .inl ⟨atom, ⟨clause, hclause, hatom⟩, rfl⟩
    · exact .inr ⟨atom, ⟨query, hquery, hatom⟩, rfl⟩

theorem mem_declarations_append (clauses clauses' : List Clause) (queries queries' : List Query)
    (decl : RelationDecl) :
    decl ∈ declarations (clauses ++ clauses') (queries ++ queries') ↔
      decl ∈ declarations clauses queries ∨ decl ∈ declarations clauses' queries' := by
  simp only [declarations, List.flatMap_append, List.map_append, List.mem_append]
  tauto

namespace Store

variable {store next : Store}

/-- A store to which some clauses and queries have been added. -/
structure Filled (store next : Store) (clauses : List Clause) (queries : List Query) : Prop where
  declaresOnce : next.DeclaresOnce
  mem_relations : ∀ decl,
    decl ∈ next.relations ↔ decl ∈ store.relations ∨ decl ∈ declarations clauses queries
  clauses_eq : next.clauses = store.clauses ++ clauses
  queries_eq : next.queries = store.queries ++ queries

theorem DeclaresOnce.filled_self (h : store.DeclaresOnce) : store.Filled store [] [] where
  declaresOnce := h
  mem_relations := by simp [declarations]
  clauses_eq := by simp
  queries_eq := by simp

theorem Filled.trans {last : Store} {clauses clauses' : List Clause} {queries queries' : List Query}
    (h : store.Filled next clauses queries) (h' : next.Filled last clauses' queries') :
    store.Filled last (clauses ++ clauses') (queries ++ queries') where
  declaresOnce := h'.declaresOnce
  mem_relations := by
    intro decl
    rw [h'.mem_relations, h.mem_relations, mem_declarations_append, or_assoc]
  clauses_eq := by rw [h'.clauses_eq, h.clauses_eq, List.append_assoc]
  queries_eq := by rw [h'.queries_eq, h.queries_eq, List.append_assoc]

/-- What can be stored is compatible with what is there. -/
theorem Filled.compatible {clauses : List Clause} {queries : List Query}
    (h : store.Filled next clauses queries) :
    Compatible (store.relations ++ declarations clauses queries) := by
  refine h.declaresOnce.compatible.mono fun decl hdecl => ?_
  rw [h.mem_relations]
  exact List.mem_append.mp hdecl

/-- A conflict with what is stored first is one with all that is to be stored. -/
theorem not_compatible_append {clauses clauses' : List Clause} {queries queries' : List Query}
    (hne : ¬ Compatible (store.relations ++ declarations clauses queries)) :
    ¬ Compatible (store.relations ++ declarations (clauses ++ clauses') (queries ++ queries')) := by
  refine fun hcompatible => hne (hcompatible.mono fun decl hdecl => ?_)
  rw [List.mem_append] at hdecl ⊢
  exact hdecl.imp_right fun h => (mem_declarations_append _ _ _ _ decl).mpr (.inl h)

/-- So is a conflict with what is stored next. -/
theorem Filled.not_compatible {clauses clauses' : List Clause} {queries queries' : List Query}
    (h : store.Filled next clauses queries)
    (hne : ¬ Compatible (next.relations ++ declarations clauses' queries')) :
    ¬ Compatible (store.relations ++ declarations (clauses ++ clauses') (queries ++ queries')) := by
  refine fun hcompatible => hne (hcompatible.mono fun decl hdecl => ?_)
  rw [List.mem_append, h.mem_relations, or_assoc, ← mem_declarations_append] at hdecl
  exact List.mem_append.mpr hdecl

theorem kind_of_addClauses {clauses : List Clause} {cause : Error}
    (h : (store.addClauses clauses).2 = some cause) : cause.kind = .compile := by
  unfold addClauses at h
  split at h
  · cases h
  · rename_i declared conflict hconflict
    exact kind_of_declareAll (h ▸ congrArg Prod.snd hconflict)

theorem kind_of_addQueries {queries : List Query} {cause : Error}
    (h : (store.addQueries queries).2 = some cause) : cause.kind = .compile := by
  induction queries generalizing store with
  | nil => cases h
  | cons query rest ih =>
      unfold addQueries at h
      split at h
      · exact ih h
      · rename_i declared conflict hconflict
        unfold addQuery at hconflict
        split at hconflict
        · cases hconflict
        · rename_i hdeclared
          cases hconflict
          exact kind_of_declareAll (h ▸ congrArg Prod.snd hdeclared)

theorem DeclaresOnce.addClauses_cases (hstore : store.DeclaresOnce) (clauses : List Clause) :
    (∃ next, store.addClauses clauses = (next, none) ∧ store.Filled next clauses []) ∨
      ∃ next cause, store.addClauses clauses = (next, some cause) ∧
        ¬ Compatible (store.relations ++ declarations clauses []) := by
  have hnone : (clauses.flatMap Clause.atoms).map Atom.declaration = declarations clauses [] := by
    simp [declarations]
  rcases hstore.declareAll_cases (clauses.flatMap Clause.atoms) with
    ⟨declared, hdeclared, hspec⟩ | ⟨declared, cause, hdeclared, hne⟩
  · refine .inl ⟨{ declared with clauses := declared.clauses ++ clauses }, ?_, ?_⟩
    · simp only [addClauses, hdeclared]
    · exact ⟨hspec.declaresOnce, by rw [← hnone]; exact hspec.mem_relations,
        by rw [hspec.clauses_eq], by simp [hspec.queries_eq]⟩
  · refine .inr ⟨declared, cause, ?_, hnone ▸ hne⟩
    simp only [addClauses, hdeclared]

theorem DeclaresOnce.addQuery_cases (hstore : store.DeclaresOnce) (query : Query) :
    (∃ next, store.addQuery query = (next, none) ∧ store.Filled next [] [query]) ∨
      ∃ next cause, store.addQuery query = (next, some cause) ∧
        ¬ Compatible (store.relations ++ declarations [] [query]) := by
  have hsingle : query.condition.atoms.map Atom.declaration = declarations [] [query] := by
    simp [declarations]
  rcases hstore.declareAll_cases query.condition.atoms with
    ⟨declared, hdeclared, hspec⟩ | ⟨declared, cause, hdeclared, hne⟩
  · refine .inl ⟨{ declared with queries := declared.queries ++ [query] }, ?_, ?_⟩
    · simp only [addQuery, hdeclared]
    · exact ⟨hspec.declaresOnce, by rw [← hsingle]; exact hspec.mem_relations,
        by simp [hspec.clauses_eq], by rw [hspec.queries_eq]⟩
  · refine .inr ⟨declared, cause, ?_, hsingle ▸ hne⟩
    simp only [addQuery, hdeclared]

theorem DeclaresOnce.addQueries_cases (hstore : store.DeclaresOnce) (queries : List Query) :
    (∃ next, store.addQueries queries = (next, none) ∧ store.Filled next [] queries) ∨
      ∃ next cause, store.addQueries queries = (next, some cause) ∧
        ¬ Compatible (store.relations ++ declarations [] queries) := by
  induction queries generalizing store with
  | nil => exact .inl ⟨store, rfl, hstore.filled_self⟩
  | cons query rest ih =>
      rcases hstore.addQuery_cases query with ⟨asked, hasked, hspec⟩ | ⟨asked, cause, hasked, hne⟩
      · rcases ih hspec.declaresOnce with ⟨next, hnext, hspec'⟩ | ⟨next, cause, hnext, hne⟩
        · refine .inl ⟨next, ?_, hspec.trans hspec'⟩
          simp only [addQueries, hasked, hnext]
        · refine .inr ⟨next, cause, ?_, hspec.not_compatible hne⟩
          simp only [addQueries, hasked, hnext]
      · refine .inr ⟨asked, cause, ?_, not_compatible_append hne⟩
        simp only [addQueries, hasked]

@[simp] theorem relations_markSinkMethod (store : Store) (owner : ClassId) (method : MethodId) :
    (store.markSinkMethod owner method).relations = store.relations := by
  unfold Store.markSinkMethod
  split <;> rfl

end Store

/-! ## Emissions -/

namespace Emission

variable {emission : Emission} {store : Store}

theorem kind_of_store {owner : ClassId} {method : MethodId} {cause : Error}
    (h : (emission.store .together owner method store).2 = some cause) :
    cause.kind = .compile := by
  unfold Emission.store at h
  dsimp only [StoreMode.addClauses] at h
  split at h
  · exact Store.kind_of_addQueries h
  · rename_i declared conflict hconflict
    exact Store.kind_of_addClauses (h ▸ congrArg Prod.snd hconflict)

/-- An emission is stored exactly when it is compatible with the store. -/
theorem store_cases (hstore : store.DeclaresOnce) (emission : Emission) (owner : ClassId)
    (method : MethodId) :
    (∃ next, emission.store .together owner method store = (next, none) ∧
        store.Filled next emission.clauses emission.queries) ∨
      ∃ next cause, emission.store .together owner method store = (next, some cause) ∧
        ¬ Compatible (store.relations ++ declarations emission.clauses emission.queries) := by
  -- marking a sink method changes neither declarations nor contents
  obtain ⟨marked, hmarked, hrelations, hclauses, hqueries⟩ : ∃ marked : Store,
      (if emission.callsSink then store.markSinkMethod owner method else store) = marked ∧
      marked.relations = store.relations ∧ marked.clauses = store.clauses ∧
      marked.queries = store.queries := by
    refine ⟨_, rfl, ?_⟩
    split
    · simp
    · simp
  have honce : marked.DeclaresOnce := by
    rw [Store.DeclaresOnce, hrelations]
    exact hstore
  rcases honce.addClauses_cases emission.clauses with
    ⟨filled, hfilled, hspec⟩ | ⟨filled, cause, hfilled, hne⟩
  · rcases hspec.declaresOnce.addQueries_cases emission.queries with
      ⟨next, hnext, hspec'⟩ | ⟨next, cause, hnext, hne⟩
    · have hboth : marked.Filled next emission.clauses emission.queries := by
        simpa using hspec.trans hspec'
      refine .inl ⟨next, ?_, hboth.declaresOnce, hrelations ▸ hboth.mem_relations,
        hclauses ▸ hboth.clauses_eq, hqueries ▸ hboth.queries_eq⟩
      simp only [Emission.store, StoreMode.addClauses, hmarked, hfilled, hnext]
    · refine .inr ⟨next, cause, ?_, ?_⟩
      · simp only [Emission.store, StoreMode.addClauses, hmarked, hfilled, hnext]
      · simpa [hrelations] using hspec.not_compatible hne
  · refine .inr ⟨filled, cause, ?_, ?_⟩
    · simp only [Emission.store, StoreMode.addClauses, hmarked, hfilled]
    · have hlater : ¬ Compatible (marked.relations ++
          declarations (emission.clauses ++ []) ([] ++ emission.queries)) :=
        Store.not_compatible_append hne
      simpa [hrelations] using hlater

end Emission

end DalvikHorn
