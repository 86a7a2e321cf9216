import DalvikHorn.Proofs.SinkQueries

/-!
# What a run over methods leaves behind

A run stores what one method after the other contributes.  A method whose arguments do not
fit is skipped, and so is one that conflicts with the declarations of the store.  The
store then holds the clauses and queries of exactly the methods that were compiled
(`Program.compiledMethods`), and the report counts them: `report_counts_store`.

## Strategy

* **Conflicts.**  The clauses of a method are stored together, so a conflict among them
  leaves clauses and queries as they were; only declarations and the mark of a sink
  method may stay behind (`Emission.store_conflict`).  Queries go in one by one, but they
  never meet a conflict, because their applications have been declared by the clauses of
  the same calls (`queries_declared`).
* **Runs.**  What a part of a run does to the store and the counts is `Advances`.  One
  method advances them (`advances_method`), and parts of a run can be put together.
* **Programs.**  A compilation starts with the facts, which are stored together as well.
  What it ends with, in terms of the methods that were compiled, is its `Outcome`.
-/

namespace DalvikHorn

theorem nodup_eraseDups {α : Type} [DecidableEq α] : ∀ items : List α, items.eraseDups.Nodup
  | [] => by simp
  | item :: rest => by
      rw [List.eraseDups_cons, List.nodup_cons]
      exact ⟨by simp, nodup_eraseDups _⟩
termination_by items => items.length
decreasing_by exact Nat.lt_succ_of_le (List.length_filter_le _ _)

/-! ## Stores that have met a conflict -/

namespace Store

variable {store next : Store}

/-- A store with some of the declarations that were asked for, and otherwise the same. -/
structure Grows (store next : Store) (decls : List RelationDecl) : Prop
    extends store.Extends next where
  declaresOnce : next.DeclaresOnce
  kept : ∀ decl ∈ store.relations, decl ∈ next.relations
  bounded : ∀ decl ∈ next.relations, decl ∈ store.relations ∨ decl ∈ decls

theorem DeclaresOnce.declareAll_grows (hstore : store.DeclaresOnce) (atoms : List Atom) :
    store.Grows (store.declareAll atoms).1 (atoms.map Atom.declaration) := by
  induction atoms generalizing store with
  | nil => exact ⟨⟨rfl, rfl⟩, hstore, fun _ hdecl => hdecl, fun _ hdecl => .inl hdecl⟩
  | cons atom rest ih =>
      rcases hstore.declare_cases atom with ⟨declared, hdeclared, hspec⟩ | ⟨cause, hcause, -⟩
      · have hgrows := ih hspec.declaresOnce
        simp only [declareAll, hdeclared]
        refine ⟨⟨hgrows.clauses_eq.trans hspec.clauses_eq,
          hgrows.queries_eq.trans hspec.queries_eq⟩, hgrows.declaresOnce, fun decl hdecl => ?_,
          fun decl hdecl => ?_⟩
        · exact hgrows.kept decl ((hspec.mem_relations decl).mpr (.inl hdecl))
        · rw [List.map_cons, List.mem_cons, ← or_assoc]
          refine (hgrows.bounded decl hdecl).imp_left fun hmem => ?_
          exact ((hspec.mem_relations decl).mp hmem).imp_right List.mem_singleton.mp
      · simp only [declareAll, hcause]
        exact ⟨⟨rfl, rfl⟩, hstore, fun _ hdecl => hdecl, fun _ hdecl => .inl hdecl⟩

theorem DeclaresOnce.addClauses_conflict (hstore : store.DeclaresOnce) {clauses : List Clause}
    {cause : Error} (h : store.addClauses clauses = (next, some cause)) :
    store.Grows next (declarations clauses []) := by
  have hgrows := hstore.declareAll_grows (clauses.flatMap Clause.atoms)
  have hdecls : (clauses.flatMap Clause.atoms).map Atom.declaration = declarations clauses [] := by
    simp [declarations]
  unfold addClauses at h
  split at h
  · cases h
  · rename_i declared conflict hdeclared
    cases h
    rwa [hdeclared, hdecls] at hgrows

/-- Queries whose applications are all declared meet no conflict. -/
theorem DeclaresOnce.addQueries_of_declared (hstore : store.DeclaresOnce) {queries : List Query}
    (hdeclared : ∀ decl ∈ declarations [] queries, decl ∈ store.relations) :
    ∃ next, store.addQueries queries = (next, none) := by
  rcases hstore.addQueries_cases queries with ⟨next, hnext, -⟩ | ⟨next, cause, -, hne⟩
  · exact ⟨next, hnext⟩
  · refine absurd (hstore.compatible.mono fun decl hdecl => ?_) hne
    exact (List.mem_append.mp hdecl).elim id (hdeclared decl)

/-! ## Sink methods -/

theorem sinkMethods_declareAll (store : Store) (atoms : List Atom) :
    (store.declareAll atoms).1.sinkMethods = store.sinkMethods := by
  induction atoms generalizing store with
  | nil => rfl
  | cons atom rest ih =>
      unfold declareAll
      split
      · rfl
      · rename_i declared hdeclared
        rw [ih]
        unfold declare at hdeclared
        split at hdeclared
        · cases hdeclared
          rfl
        · split at hdeclared
          · cases hdeclared
            rfl
          · cases hdeclared

theorem sinkMethods_addClauses (store : Store) (clauses : List Clause) :
    (store.addClauses clauses).1.sinkMethods = store.sinkMethods := by
  have hsame := sinkMethods_declareAll store (clauses.flatMap Clause.atoms)
  unfold addClauses
  split <;> simp_all

theorem sinkMethods_addQueries (store : Store) (queries : List Query) :
    (store.addQueries queries).1.sinkMethods = store.sinkMethods := by
  induction queries generalizing store with
  | nil => rfl
  | cons query rest ih =>
      have hquery : (store.addQuery query).1.sinkMethods = store.sinkMethods := by
        have hsame := sinkMethods_declareAll store query.condition.atoms
        unfold addQuery
        split <;> simp_all
      unfold addQueries
      split
      · rename_i asked hasked
        rw [ih, ← hquery, hasked]
      · rename_i asked conflict hasked
        rw [← hquery, hasked]

theorem isSinkMethod_markSinkMethod (store : Store) (owner other : ClassId)
    (method called : MethodId) :
    (store.markSinkMethod owner method).isSinkMethod other called = true ↔
      store.isSinkMethod other called = true ∨ owner = other ∧ method = called := by
  unfold markSinkMethod
  split
  · rename_i hmarked
    refine ⟨.inl, ?_⟩
    rintro (hold | ⟨rfl, rfl⟩)
    · exact hold
    · exact hmarked
  · simp only [isSinkMethod, List.contains_iff_mem, List.mem_append, List.mem_singleton,
      Prod.mk.injEq]
    exact or_congr_right (and_congr eq_comm eq_comm)

end Store

/-! ## Emissions -/

namespace Emission

variable {emission : Emission} {store next : Store} {owner : ClassId} {method : MethodId}

theorem callsSink_join (emissions : List Emission) :
    (join emissions).callsSink = emissions.any (·.callsSink) := by
  have hfold : ∀ start : Emission, (emissions.foldl append start).callsSink =
      (start.callsSink || emissions.any (·.callsSink)) := by
    induction emissions with
    | nil => simp
    | cons emission rest ih => simp [ih, append, Bool.or_assoc]
  rw [join, hfold]
  rfl

/-- Storing an emission marks the method, whether or not it meets a conflict. -/
theorem isSinkMethod_store (emission : Emission) (owner : ClassId) (method : MethodId)
    (store : Store) (other : ClassId) (called : MethodId) :
    (emission.store .together owner method store).1.isSinkMethod other called = true ↔
      store.isSinkMethod other called = true ∨
        emission.callsSink = true ∧ owner = other ∧ method = called := by
  have hsame : (emission.store .together owner method store).1.sinkMethods =
      (if emission.callsSink then store.markSinkMethod owner method else store).sinkMethods := by
    unfold Emission.store StoreMode.addClauses
    dsimp only
    generalize (if emission.callsSink then store.markSinkMethod owner method else store) = marked
    have hclauses := Store.sinkMethods_addClauses marked emission.clauses
    split
    · rename_i filled hfilled
      rw [Store.sinkMethods_addQueries, ← hclauses, hfilled]
    · rename_i filled conflict hfilled
      rw [← hclauses, hfilled]
  rw [Store.isSinkMethod, hsame, ← Store.isSinkMethod]
  cases emission.callsSink with
  | false => simp
  | true => simpa using Store.isSinkMethod_markSinkMethod store owner other method called

/-- An emission that meets a conflict leaves clauses and queries as they were, provided that its
clauses ask for all that its queries do. -/
theorem store_conflict (hstore : store.DeclaresOnce)
    (hqueries : ∀ decl ∈ declarations [] emission.queries,
      decl ∈ declarations emission.clauses []) {cause : Error}
    (h : emission.store .together owner method store = (next, some cause)) :
    store.Grows next (declarations emission.clauses []) := by
  unfold Emission.store StoreMode.addClauses at h
  dsimp only at h
  generalize hmarked : (if emission.callsSink then store.markSinkMethod owner method else store) =
    marked at h
  have hsame : marked.relations = store.relations ∧ store.Extends marked := by
    rw [← hmarked]
    split
    · exact ⟨by simp, by simp, by simp⟩
    · exact ⟨rfl, rfl, rfl⟩
  have honce : marked.DeclaresOnce := by
    rw [Store.DeclaresOnce, hsame.1]
    exact hstore
  split at h
  · rename_i filled hfilled
    rcases honce.addClauses_cases emission.clauses with
      ⟨other, hother, hspec⟩ | ⟨other, conflict, hother, -⟩
    · rw [hfilled] at hother
      cases hother
      -- all that the queries ask for has just been declared, so they meet no conflict
      obtain ⟨last, hlast⟩ := hspec.declaresOnce.addQueries_of_declared fun decl hdecl =>
        (hspec.mem_relations decl).mpr (.inr (hqueries decl hdecl))
      rw [hlast] at h
      cases h
    · rw [hfilled] at hother
      cases hother
  · rename_i filled conflict hfilled
    cases h
    have hgrows := honce.addClauses_conflict hfilled
    refine ⟨⟨hgrows.clauses_eq.trans hsame.2.clauses_eq,
      hgrows.queries_eq.trans hsame.2.queries_eq⟩, hgrows.declaresOnce, ?_, ?_⟩
    · rw [← hsame.1]
      exact hgrows.kept
    · rw [← hsame.1]
      exact hgrows.bounded

end Emission

/-! ## Methods -/

namespace Program

variable {program : Program} {config : Config} {labels : Labels}

theorem listsReceivers_oracle (program : Program) (labels : Labels) :
    StepContext.ListsReceivers (program.oracle labels) :=
  fun _ _ _ hfound _ hmem => (ClassTable.of_mem_resolveVirtual hfound hmem).2.1

theorem HasStep.registered {cx : StepContext}
    (h : program.HasStep (program.environment config labels) cx) : cx.layout.Registered := by
  rw [h.layout_eq]
  exact program.registered_heapLayout _

theorem HasStep.listsReceivers {cx : StepContext}
    (h : program.HasStep (program.environment config labels) cx) :
    StepContext.ListsReceivers cx.oracle := by
  rw [h.oracle_eq]
  exact program.listsReceivers_oracle labels

/-- What the queries of a method ask for, its clauses ask for as well. -/
theorem queries_declared_methodEmission {entry : Class × Method} (hmem : entry ∈ program.methods)
    {decl : RelationDecl}
    (h : decl ∈ declarations []
      (methodEmission (program.environment config labels) entry).queries) :
    decl ∈ declarations (methodEmission (program.environment config labels) entry).clauses [] := by
  rcases mem_declarations.mp h with ⟨_, hnone, -⟩ | ⟨query, hquery, hasks⟩
  · cases hnone
  · rw [queries_methodEmission] at hquery
    obtain ⟨cx, hcx, hquery⟩ := List.mem_flatMap.mp hquery
    have hstep := hasStep_of_mem_methodContexts hmem hcx
    have hdeclared := StepContext.queries_declared hstep.registered hstep.listsReceivers
      (mem_declarations.mpr (.inr ⟨query, hquery, hasks⟩))
    rcases mem_declarations.mp hdeclared with ⟨clause, hclause, hasked⟩ | ⟨_, hnone, -⟩
    · rw [clauses_methodEmission]
      exact mem_declarations.mpr (.inl ⟨clause, List.mem_flatMap.mpr ⟨cx, hcx, hclause⟩, hasked⟩)
    · cases hnone

/-! ## Runs -/

/-- The methods of a list that are stored, one after the other, into a store. -/
def methodsStored (env : Environment) : Store → List (Class × Method) → List (Class × Method)
  | _, [] => []
  | store, entry :: rest =>
      if entry.2.shape.WellFormed then
        match (methodEmission env entry).store .together entry.1.id entry.2.id store with
        | (next, none) => entry :: methodsStored env next rest
        | (next, some _) => methodsStored env next rest
      else
        methodsStored env store rest

theorem methodsStored_sublist (env : Environment) (store : Store)
    (methods : List (Class × Method)) :
    (methodsStored env store methods).Sublist
      (methods.filter fun entry => decide entry.2.shape.WellFormed) := by
  induction methods generalizing store with
  | nil => exact .slnil
  | cons entry rest ih =>
      rw [methodsStored]
      split
      · rename_i hshape
        rw [List.filter_cons_of_pos (by simpa using hshape)]
        split
        · exact (ih _).cons_cons entry
        · exact (ih _).cons entry
      · rename_i hshape
        rw [List.filter_cons_of_neg (by simpa using hshape)]
        exact ih _

/-- What a part of a run does.  The store gets the clauses and queries of the methods that were
compiled, and perhaps declarations and marks of others; the counts are those of the compiled
methods. -/
structure Advances (env : Environment) (methods compiled : List (Class × Method))
    (tally final : Tally) (store next : Store) : Prop where
  declaresOnce : next.DeclaresOnce
  clauses_eq : next.clauses = store.clauses ++ clausesOf env compiled
  queries_eq : next.queries = store.queries ++ queriesOf env compiled
  kept : ∀ decl ∈ store.relations, decl ∈ next.relations
  declared : ∀ decl ∈ declarations (clausesOf env compiled) (queriesOf env compiled),
    decl ∈ next.relations
  bounded : ∀ decl ∈ next.relations, decl ∈ store.relations ∨
    ∃ entry ∈ methods, decl ∈ declarations (methodEmission env entry).clauses []
  marked : ∀ owner method, next.isSinkMethod owner method = true ↔
    store.isSinkMethod owner method = true ∨ ∃ entry ∈ methods,
      (methodEmission env entry).callsSink = true ∧ entry.1.id = owner ∧ entry.2.id = method
  compiled_eq : final.methodsCompiled = tally.methodsCompiled + compiled.length
  skipped_eq : final.methodsCompiled + final.methodsSkipped =
    tally.methodsCompiled + tally.methodsSkipped + methods.length
  counted_clauses : final.clauses = tally.clauses + (clausesOf env compiled).length
  counted_queries : final.queries = tally.queries + (queriesOf env compiled).length
  mem_counted : ∀ name, name ∈ final.relations ↔ name ∈ tally.relations ∨
    ∃ decl ∈ declarations (clausesOf env compiled) (queriesOf env compiled), decl.name = name
  nodup_counted : tally.relations.Nodup → final.relations.Nodup

variable {env : Environment} {tally middle final : Tally} {store between next : Store}

theorem advances_nil (hstore : store.DeclaresOnce) :
    Advances env [] [] tally tally store store where
  declaresOnce := hstore
  clauses_eq := by simp [clausesOf]
  queries_eq := by simp [queriesOf]
  kept := fun _ hdecl => hdecl
  declared := by simp [clausesOf, queriesOf, declarations]
  bounded := fun _ hdecl => .inl hdecl
  marked := by simp
  compiled_eq := rfl
  skipped_eq := rfl
  counted_clauses := rfl
  counted_queries := rfl
  mem_counted := by simp [clausesOf, queriesOf, declarations]
  nodup_counted := id

theorem Advances.trans {methods more compiled others : List (Class × Method)}
    (h : Advances env methods compiled tally middle store between)
    (h' : Advances env more others middle final between next) :
    Advances env (methods ++ more) (compiled ++ others) tally final store next := by
  have hclauses : clausesOf env (compiled ++ others) =
      clausesOf env compiled ++ clausesOf env others := List.flatMap_append
  have hqueries : queriesOf env (compiled ++ others) =
      queriesOf env compiled ++ queriesOf env others := List.flatMap_append
  constructor
  case declaresOnce => exact h'.declaresOnce
  case clauses_eq => rw [h'.clauses_eq, h.clauses_eq, hclauses, List.append_assoc]
  case queries_eq => rw [h'.queries_eq, h.queries_eq, hqueries, List.append_assoc]
  case kept => exact fun decl hdecl => h'.kept decl (h.kept decl hdecl)
  case declared =>
    intro decl hdecl
    rw [hclauses, hqueries, mem_declarations_append] at hdecl
    exact hdecl.elim (fun hfirst => h'.kept decl (h.declared decl hfirst)) (h'.declared decl)
  case bounded =>
    intro decl hdecl
    -- a declaration between the two stores is one of either part
    rcases h'.bounded decl hdecl with hbetween | ⟨entry, hentry, hasked⟩
    · refine (h.bounded decl hbetween).imp_right ?_
      rintro ⟨entry, hentry, hasked⟩
      exact ⟨entry, List.mem_append_left _ hentry, hasked⟩
    · exact .inr ⟨entry, List.mem_append_right _ hentry, hasked⟩
  case marked =>
    intro owner method
    rw [h'.marked, h.marked, or_assoc]
    simp only [List.mem_append, or_and_right, exists_or]
  case compiled_eq => rw [h'.compiled_eq, h.compiled_eq, List.length_append, Nat.add_assoc]
  case skipped_eq => rw [h'.skipped_eq, h.skipped_eq, List.length_append, Nat.add_assoc]
  case counted_clauses =>
    rw [h'.counted_clauses, h.counted_clauses, hclauses, List.length_append, Nat.add_assoc]
  case counted_queries =>
    rw [h'.counted_queries, h.counted_queries, hqueries, List.length_append, Nat.add_assoc]
  case mem_counted =>
    intro name
    rw [h'.mem_counted, h.mem_counted, hclauses, hqueries, or_assoc]
    simp only [mem_declarations_append, or_and_right, exists_or]
  case nodup_counted => exact fun hnodup => h'.nodup_counted (h.nodup_counted hnodup)

/-- A method that is skipped is counted, and it leaves declarations and a mark at most. -/
theorem advances_skipped {entry : Class × Method} {decls : List RelationDecl}
    (hgrows : store.Grows next decls)
    (hdecls : ∀ decl ∈ decls, decl ∈ declarations (methodEmission env entry).clauses [])
    (hmarked : ∀ owner method, next.isSinkMethod owner method = true ↔
      store.isSinkMethod owner method = true ∨
        (methodEmission env entry).callsSink = true ∧ entry.1.id = owner ∧ entry.2.id = method) :
    Advances env [entry] [] tally tally.skipped store next where
  declaresOnce := hgrows.declaresOnce
  clauses_eq := by simpa [clausesOf] using hgrows.clauses_eq
  queries_eq := by simpa [queriesOf] using hgrows.queries_eq
  kept := hgrows.kept
  declared := by simp [clausesOf, queriesOf, declarations]
  bounded := fun decl hdecl => (hgrows.bounded decl hdecl).imp_right fun hmem =>
    ⟨entry, List.mem_singleton_self _, hdecls decl hmem⟩
  marked := by simpa using hmarked
  compiled_eq := rfl
  skipped_eq := rfl
  counted_clauses := rfl
  counted_queries := rfl
  mem_counted := by simp [Tally.skipped, clausesOf, queriesOf, declarations]
  nodup_counted := id

theorem mem_relations_record (tally : Tally) (emission : Emission) (name : String) :
    name ∈ (tally.record emission).relations ↔ name ∈ tally.relations ∨
      ∃ decl ∈ declarations emission.clauses emission.queries, decl.name = name := by
  have hnames : (emission.clauses.flatMap Clause.atoms ++
      emission.queries.flatMap (·.condition.atoms)).map (·.relation) =
        (declarations emission.clauses emission.queries).map (·.name) := by
    rw [declarations, List.map_map]
    rfl
  rw [Tally.record]
  dsimp only
  rw [List.mem_eraseDups, List.mem_append, hnames, List.mem_map]

/-- A method that is stored is counted with all that it contributes. -/
theorem advances_stored {entry : Class × Method} (hmem : entry ∈ program.methods)
    (hfilled : store.Filled next
      (methodEmission (program.environment config labels) entry).clauses
      (methodEmission (program.environment config labels) entry).queries)
    (hmarked : ∀ owner method, next.isSinkMethod owner method = true ↔
      store.isSinkMethod owner method = true ∨
        (methodEmission (program.environment config labels) entry).callsSink = true ∧
          entry.1.id = owner ∧ entry.2.id = method) :
    Advances (program.environment config labels) [entry] [entry] tally
      (tally.compiled (methodEmission (program.environment config labels) entry)) store next := by
  have hclauses : clausesOf (program.environment config labels) [entry] =
      (methodEmission (program.environment config labels) entry).clauses := by simp [clausesOf]
  have hqueries : queriesOf (program.environment config labels) [entry] =
      (methodEmission (program.environment config labels) entry).queries := by simp [queriesOf]
  constructor
  case declaresOnce => exact hfilled.declaresOnce
  case clauses_eq => rw [hclauses, hfilled.clauses_eq]
  case queries_eq => rw [hqueries, hfilled.queries_eq]
  case kept => exact fun decl hdecl => (hfilled.mem_relations decl).mpr (.inl hdecl)
  case declared =>
    rw [hclauses, hqueries]
    exact fun decl hdecl => (hfilled.mem_relations decl).mpr (.inr hdecl)
  case bounded =>
    intro decl hdecl
    refine ((hfilled.mem_relations decl).mp hdecl).imp_right fun hasked => ?_
    refine ⟨entry, List.mem_singleton_self _, ?_⟩
    rcases mem_declarations.mp hasked with hclause | hquery
    · exact mem_declarations.mpr (.inl hclause)
    · exact queries_declared_methodEmission hmem (mem_declarations.mpr (.inr hquery))
  case marked => simpa using hmarked
  case compiled_eq => rfl
  -- one more method is compiled, and none is skipped
  case skipped_eq =>
    change tally.methodsCompiled + 1 + tally.methodsSkipped = _
    rw [List.length_singleton]
    omega
  case counted_clauses =>
    rw [hclauses]
    rfl
  case counted_queries =>
    rw [hqueries]
    rfl
  case mem_counted =>
    rw [hclauses, hqueries]
    exact mem_relations_record tally _
  case nodup_counted => exact fun _ => nodup_eraseDups _

/-- One method advances the store and the counts. -/
theorem advances_method {entry : Class × Method} (hmem : entry ∈ program.methods)
    (rest : List (Class × Method)) (requests : Nat) (tally : Tally) (hstore : store.DeclaresOnce) :
    ∃ after middle between compiled,
      (program.environment config labels).compileMethods .together requests tally store
          (entry :: rest) =
        (program.environment config labels).compileMethods .together after middle between rest ∧
      methodsStored (program.environment config labels) store (entry :: rest) =
        compiled ++ methodsStored (program.environment config labels) between rest ∧
      Advances (program.environment config labels) [entry] compiled tally middle store between := by
  by_cases hshape : entry.2.shape.WellFormed
  · obtain ⟨after, hstep⟩ : ∃ after, (program.environment config labels).compileMethods .together
        requests tally store (entry :: rest) = _ :=
      compileMethods_of_wellFormed hmem hshape requests tally store
    have hmarks := Emission.isSinkMethod_store
      (methodEmission (program.environment config labels) entry) entry.1.id entry.2.id store
    rw [methodsStored, if_pos hshape]
    rcases Emission.store_cases hstore (methodEmission (program.environment config labels) entry)
      entry.1.id entry.2.id with ⟨stored, hstored, hfilled⟩ | ⟨stored, cause, hstored, -⟩
    · simp only [hstored] at hstep hmarks ⊢
      exact ⟨after, _, stored, [entry], hstep, rfl, advances_stored hmem hfilled hmarks⟩
    · simp only [hstored] at hstep hmarks ⊢
      refine ⟨after, _, stored, [], hstep, rfl, advances_skipped ?_ (fun _ hdecl => hdecl) hmarks⟩
      exact Emission.store_conflict hstore
        (fun decl hdecl => queries_declared_methodEmission hmem hdecl) hstored
  · obtain ⟨after, hstep⟩ : ∃ after, (program.environment config labels).compileMethods .together
        requests tally store (entry :: rest) = _ :=
      compileMethods_of_not_wellFormed hshape requests tally store
    -- a method that does not fit is skipped before it is stored
    have hgrows : store.Grows store [] :=
      ⟨⟨rfl, rfl⟩, hstore, fun _ hdecl => hdecl, fun _ hdecl => .inl hdecl⟩
    rw [methodsStored, if_neg hshape]
    refine ⟨after, _, store, [], hstep, rfl, advances_skipped hgrows (by simp) ?_⟩
    simp [methodEmission_of_not_wellFormed _ hshape]

/-- A run over methods of the program ends, and it advances the store and the counts by those that
were stored. -/
theorem advances_compileMethods (config : Config) (labels : Labels)
    {methods : List (Class × Method)} (hmethods : ∀ entry ∈ methods, entry ∈ program.methods)
    (requests : Nat) (tally : Tally) (hstore : store.DeclaresOnce) :
    ∃ final next,
      (program.environment config labels).compileMethods .together requests tally store methods =
        .ok (final, next) ∧
      Advances (program.environment config labels) methods
        (methodsStored (program.environment config labels) store methods) tally final store
        next := by
  induction methods generalizing requests tally store with
  | nil => exact ⟨tally, store, rfl, advances_nil hstore⟩
  | cons entry rest ih =>
      obtain ⟨after, middle, between, compiled, hstep, hcompiled, hadvances⟩ :=
        advances_method (hmethods entry List.mem_cons_self) rest requests tally hstore
      obtain ⟨final, next, hrun, hrest⟩ := ih
        (fun other hother => hmethods other (List.mem_cons_of_mem _ hother)) after middle
        hadvances.declaresOnce
      rw [hstep, hcompiled]
      exact ⟨final, next, hrun, hadvances.trans hrest⟩

/-! ## Programs -/

/-- The store with nothing but the facts of a program. -/
def factStore (program : Program) (env : Environment) : Store :=
  (Store.empty.addClauses (env.factClauses program)).1

/-- The methods of an order whose clauses and queries are stored. -/
def compiledMethods (program : Program) (env : Environment) (order : List (Class × Method)) :
    List (Class × Method) :=
  methodsStored env (program.factStore env) order

/-- A compilation that succeeds has stored the facts, and then it has advanced. -/
theorem advances_fill (config : Config) (labels : Labels) {order : List (Class × Method)}
    (horder : ∀ entry ∈ order, entry ∈ program.methods) {compilation : Compilation}
    (hfill : program.fill (program.environment config labels) order = .ok compilation) :
    Store.empty.Filled (program.factStore (program.environment config labels))
        ((program.environment config labels).factClauses program) [] ∧
      ∃ final, compilation.report = final.report ∧
        Advances (program.environment config labels) order
          (program.compiledMethods (program.environment config labels) order)
          (Tally.record {} { clauses := (program.environment config labels).factClauses program })
          final (program.factStore (program.environment config labels)) compilation.store := by
  -- identifiers are hashes, which no other request changes
  have hnames : ∀ request,
      (program.environment config labels).oracle.allocationId request = siteHash := fun _ => rfl
  have hfacts := Environment.facts_eq hnames program.localAllocations.length program
  unfold fill at hfill
  dsimp only at hfill
  rw [hfacts] at hfill
  dsimp only [Bind.bind, Except.bind] at hfill
  rw [compiledMethods, factStore]
  rcases Store.declaresOnce_empty.addClauses_cases
      ((program.environment config labels).factClauses program) with
    ⟨store, hstored, hfilled⟩ | ⟨store, cause, hstored, -⟩
  · -- the facts are stored, so the methods follow; else nothing is compiled
    obtain ⟨final, next, hrun, hadvances⟩ := advances_compileMethods config labels horder
      (program.localAllocations.length + Environment.factRequests program)
      (Tally.record {} { clauses := (program.environment config labels).factClauses program })
      hfilled.declaresOnce
    rw [hstored] at hfill ⊢
    dsimp only at hfill
    rw [hrun] at hfill
    cases hfill
    exact ⟨hfilled, final, rfl, hadvances⟩
  · rw [hstored] at hfill
    cases hfill

theorem mem_of_mem_compiledMethods {env : Environment} {order : List (Class × Method)}
    {entry : Class × Method} (h : entry ∈ program.compiledMethods env order) :
    entry ∈ order ∧ entry.2.shape.WellFormed := by
  simpa using (methodsStored_sublist _ _ _).subset h

/-- What a compilation holds and counts when `compiled` are the methods of an order that were
stored after the facts.  A relation that was declared for nothing in the store was declared for a
method that is not among them. -/
structure Outcome (program : Program) (env : Environment) (order compiled : List (Class × Method))
    (compilation : Compilation) : Prop where
  declaresOnce : compilation.store.DeclaresOnce
  clauses_eq : compilation.store.clauses = env.factClauses program ++ clausesOf env compiled
  queries_eq : compilation.store.queries = queriesOf env compiled
  declared : ∀ decl ∈ declarations compilation.store.clauses compilation.store.queries,
    decl ∈ compilation.store.relations
  bounded : ∀ decl ∈ compilation.store.relations,
    decl ∈ declarations compilation.store.clauses compilation.store.queries ∨
      ∃ entry ∈ order, entry ∉ compiled ∧ decl ∈ declarations (methodEmission env entry).clauses []
  marked : ∀ owner method, compilation.store.isSinkMethod owner method = true ↔
    ∃ entry ∈ order,
      (methodEmission env entry).callsSink = true ∧ entry.1.id = owner ∧ entry.2.id = method
  compiled_eq : compilation.report.methodsCompiled = compiled.length
  skipped_eq : compilation.report.methodsCompiled + compilation.report.methodsSkipped = order.length
  counted_clauses : compilation.report.clauses = compilation.store.clauses.length
  counted_queries : compilation.report.queries = compilation.store.queries.length
  counted_relations : compilation.report.relations =
    ((declarations compilation.store.clauses compilation.store.queries).map
      (·.name)).eraseDups.length

theorem outcome_fill (config : Config) (labels : Labels) {order : List (Class × Method)}
    (horder : ∀ entry ∈ order, entry ∈ program.methods) {compilation : Compilation}
    (hfill : program.fill (program.environment config labels) order = .ok compilation) :
    program.Outcome (program.environment config labels) order
      (program.compiledMethods (program.environment config labels) order) compilation := by
  obtain ⟨hfilled, final, hreport, hadvances⟩ := advances_fill config labels horder hfill
  have hclauses := hadvances.clauses_eq
  have hqueries := hadvances.queries_eq
  rw [hfilled.clauses_eq, Store.empty, List.nil_append] at hclauses
  rw [hfilled.queries_eq, Store.empty, List.nil_append, List.nil_append] at hqueries
  have hstored : declarations compilation.store.clauses compilation.store.queries =
      program.declarationsOf (program.environment config labels)
        (program.compiledMethods (program.environment config labels) order) := by
    rw [hclauses, hqueries]
    rfl
  have hfacts : ∀ decl, decl ∈ (program.factStore (program.environment config labels)).relations ↔
      decl ∈ declarations ((program.environment config labels).factClauses program) [] := by
    intro decl
    rw [hfilled.mem_relations]
    simp [Store.empty]
  constructor
  case declaresOnce => exact hadvances.declaresOnce
  case clauses_eq => exact hclauses
  case queries_eq => exact hqueries
  case declared =>
    intro decl hdecl
    rw [hstored, mem_declarationsOf] at hdecl
    rcases hdecl with hfact | hmethod
    · exact hadvances.kept decl ((hfacts decl).mpr hfact)
    · exact hadvances.declared decl hmethod
  case bounded =>
    intro decl hdecl
    rw [hstored, mem_declarationsOf]
    rcases hadvances.bounded decl hdecl with hfact | ⟨entry, hentry, hasked⟩
    · exact .inl (.inl ((hfacts decl).mp hfact))
    · by_cases hcompiled :
        entry ∈ program.compiledMethods (program.environment config labels) order
      · -- what a compiled method asks for is asked for in the store
        refine .inl (.inr ?_)
        rcases mem_declarations.mp hasked with ⟨clause, hclause, hatom⟩ | ⟨_, hnone, -⟩
        · exact mem_declarations.mpr
            (.inl ⟨clause, List.mem_flatMap.mpr ⟨entry, hcompiled, hclause⟩, hatom⟩)
        · cases hnone
      · exact .inr ⟨entry, hentry, hcompiled, hasked⟩
  case marked =>
    intro owner method
    have hunmarked : (program.factStore (program.environment config labels)).isSinkMethod owner
        method = false := by
      rw [factStore, Store.isSinkMethod, Store.sinkMethods_addClauses]
      rfl
    simpa [hunmarked] using hadvances.marked owner method
  case compiled_eq =>
    rw [hreport]
    refine hadvances.compiled_eq.trans ?_
    simp [Tally.record]
  case skipped_eq =>
    rw [hreport]
    refine hadvances.skipped_eq.trans ?_
    simp [Tally.record]
  case counted_clauses =>
    rw [hreport, Tally.report, hadvances.counted_clauses, hclauses, List.length_append]
    simp [Tally.record]
  case counted_queries =>
    rw [hreport, Tally.report, hadvances.counted_queries, hqueries]
    simp [Tally.record]
  case counted_relations =>
    -- the names are counted once each, so it is enough that the same names are counted
    rw [hreport, Tally.report]
    refine ((List.perm_ext_iff_of_nodup (hadvances.nodup_counted (nodup_eraseDups _))
      (nodup_eraseDups _)).mpr fun name => ?_).length_eq
    rw [hadvances.mem_counted, mem_relations_record, List.mem_eraseDups, List.mem_map, hstored]
    simp [mem_declarationsOf, or_and_right, exists_or]

/-- When no method is left out for a conflict, all methods with arguments that fit are compiled. -/
theorem Outcome.eq_filter {env : Environment} {order compiled : List (Class × Method)}
    {compilation : Compilation} (h : program.Outcome env order compiled compilation)
    (hsub : compiled.Sublist (order.filter fun entry => decide entry.2.shape.WellFormed))
    (hskipped : compilation.report.methodsSkipped =
      order.countP (fun entry => !decide entry.2.shape.WellFormed)) :
    compiled = order.filter fun entry => decide entry.2.shape.WellFormed := by
  refine hsub.eq_of_length ?_
  have hcompiled := h.compiled_eq
  have htotal := h.skipped_eq
  have hcounted : order.length = _ :=
    List.length_eq_length_filter_add fun entry => decide entry.2.shape.WellFormed
  rw [List.countP_eq_length_filter] at hskipped
  omega

theorem outcome_compileInOrder (hvalid : config.validate = .ok ())
    (hlabels : config.labels = .ok labels) {order : List (Class × Method)}
    (horder : order.Perm program.methods) {compilation : Compilation}
    (hcompile : program.compileInOrder config order = .ok compilation) :
    program.Outcome (program.environment config labels) order
      (program.compiledMethods (program.environment config labels) order) compilation := by
  rw [compileInOrder_eq_fill hvalid hlabels] at hcompile
  exact outcome_fill config labels (fun entry hentry => horder.mem_iff.mp hentry) hcompile

/-- A program is compiled with its methods in their own order. -/
theorem compile_eq_compileInOrder (program : Program) (config : Config) :
    program.compile config = program.compileInOrder config program.methods := by
  cases hvalid : config.validate with
  | error cause =>
      rw [compile, compileInOrder, hvalid]
      rfl
  | ok _ =>
      cases hlabels : config.labels with
      | error cause =>
          rw [compile, compileInOrder, hvalid, hlabels]
          rfl
      | ok labels => rw [compile_eq_fill hvalid hlabels, compileInOrder_eq_fill hvalid hlabels]

/-- A compilation starts with a valid configuration. -/
theorem validate_of_compileInOrder {order : List (Class × Method)} {compilation : Compilation}
    (hcompile : program.compileInOrder config order = .ok compilation) :
    config.validate = .ok () := by
  cases hvalid : config.validate with
  | ok _ => rfl
  | error cause =>
      rw [compileInOrder, hvalid] at hcompile
      cases hcompile

/-- What a program is compiled to when it is, over the methods that were stored. -/
theorem outcome_of_compileInOrder {order : List (Class × Method)}
    (horder : order.Perm program.methods) {compilation : Compilation}
    (hcompile : program.compileInOrder config order = .ok compilation) :
    ∃ labels, config.labels = .ok labels ∧
      program.Outcome (program.environment config labels) order
        (program.compiledMethods (program.environment config labels) order) compilation := by
  have hvalid := validate_of_compileInOrder hcompile
  obtain ⟨labels, hlabels⟩ := labels_of_validate hvalid
  exact ⟨labels, hlabels, outcome_compileInOrder hvalid hlabels horder hcompile⟩

/-- Every instruction of a compiled method is one of the program. -/
theorem hasStep_of_mem_compiledMethods {order : List (Class × Method)}
    (horder : order.Perm program.methods) {entry : Class × Method}
    (hentry : entry ∈ program.compiledMethods (program.environment config labels) order)
    {cx : StepContext}
    (hcx : cx ∈ methodContexts (program.environment config labels) entry.1 entry.2) :
    program.HasStep (program.environment config labels) cx :=
  hasStep_of_mem_methodContexts (horder.mem_iff.mp (mem_of_mem_compiledMethods hentry).1) hcx

/-- What holds of the facts of a program, and of all that its instructions contribute, holds of all
clauses that are stored. -/
theorem Outcome.clause_cases {order : List (Class × Method)} (horder : order.Perm program.methods)
    {compilation : Compilation}
    (houtcome : program.Outcome (program.environment config labels) order
      (program.compiledMethods (program.environment config labels) order) compilation)
    {clause : Clause} (hclause : clause ∈ compilation.store.clauses) :
    clause ∈ (program.environment config labels).factClauses program ∨
      ∃ cx, program.HasStep (program.environment config labels) cx ∧
        clause ∈ cx.emission.clauses := by
  rw [houtcome.clauses_eq] at hclause
  refine (List.mem_append.mp hclause).imp_right fun hclause => ?_
  obtain ⟨entry, hentry, hclause⟩ := List.mem_flatMap.mp hclause
  rw [clauses_methodEmission] at hclause
  obtain ⟨cx, hcx, hclause⟩ := List.mem_flatMap.mp hclause
  exact ⟨cx, hasStep_of_mem_compiledMethods horder hentry hcx, hclause⟩

theorem Outcome.exists_of_mem_queries {order : List (Class × Method)}
    (horder : order.Perm program.methods) {compilation : Compilation}
    (houtcome : program.Outcome (program.environment config labels) order
      (program.compiledMethods (program.environment config labels) order) compilation)
    {query : Query} (hquery : query ∈ compilation.store.queries) :
    ∃ cx, program.HasStep (program.environment config labels) cx ∧
      query ∈ cx.emission.queries := by
  rw [houtcome.queries_eq] at hquery
  obtain ⟨entry, hentry, hquery⟩ := List.mem_flatMap.mp hquery
  rw [queries_methodEmission] at hquery
  obtain ⟨cx, hcx, hquery⟩ := List.mem_flatMap.mp hquery
  exact ⟨cx, hasStep_of_mem_compiledMethods horder hentry hcx, hquery⟩

/-- The report counts what the store holds, in whichever order the methods are stored and however
many of them are skipped. -/
theorem report_counts_store (hvalid : config.validate = .ok ()) :
    program.compile config = program.compileInOrder config program.methods ∧
      ∀ order compilation, order.Perm program.methods →
        program.compileInOrder config order = .ok compilation →
          compilation.report.clauses = compilation.store.clauses.length ∧
          compilation.report.queries = compilation.store.queries.length ∧
          compilation.report.methodsCompiled + compilation.report.methodsSkipped =
            program.methods.length := by
  obtain ⟨labels, hlabels⟩ := labels_of_validate hvalid
  refine ⟨compile_eq_compileInOrder program config, fun order compilation horder hcompile => ?_⟩
  have houtcome := outcome_compileInOrder hvalid hlabels horder hcompile
  refine ⟨houtcome.counted_clauses, houtcome.counted_queries, ?_⟩
  rw [houtcome.skipped_eq, horder.length_eq]

/-- Two methods with the same identifier and frames of different sizes, and a caller of the second
that calls a sink first. -/
def clashing : Program where
  classes :=
    [{ name := "La;"
       methods :=
         [{ name := "Aa(I)V", numRegisters := 1, numArguments := 1, isStatic := true
            instructions :=
              [{ pc := 0, mnemonic := "invoke-static", registers := [0],
                 reference := some "Lc;->send(I)V" },
                { pc := 3, mnemonic := "return-void" }] },
           { name := "BB(I)V", numRegisters := 2, numArguments := 1, isStatic := true
             instructions := [{ pc := 0, mnemonic := "return-void" }] }] },
      { name := "Lb;"
        methods :=
          [{ name := "main(I)V", numRegisters := 1, numArguments := 1, isStatic := true
             instructions :=
               [{ pc := 0, mnemonic := "invoke-static", registers := [0],
                  reference := some "Lc;->send(I)V" },
                 { pc := 3, mnemonic := "invoke-static", registers := [0],
                   reference := some "La;->BB(I)V" },
                 { pc := 6, mnemonic := "return-void" }] }] }]

/-- One sink, and no rules that no method asks for. -/
def sinkConfig : Config :=
  { bitvectorSize := 32, intentSummaries := false, sources := [], sinks := ["Lc;->send(I)V"] }

/-- The first method of `clashing` is compiled.  The others are skipped, although their arguments
fit: the second declares its frame anew, and the third enters it. -/
theorem compile_clashing :
    ∃ compilation, clashing.compile sinkConfig = .ok compilation ∧
      compilation.report = { methodsCompiled := 1, methodsSkipped := 2, clauses := 3, queries := 1,
                             relations := 3 } ∧
      compilation.store.relations.length = 5 ∧
      (∃ decl ∈ compilation.store.relations,
        ∀ atom ∈ compilation.store.applications, atom.relation ≠ decl.name) ∧
      compilation.store.isSinkMethod (textHash "Lb;") (textHash "main(I)V") = true ∧
      ∀ query ∈ compilation.store.queries, query.key.method = textHash "Aa(I)V" :=
  exists_ok_of_any (by decide +kernel)

/-- When its methods are stored in the reverse order, two methods of `clashing` are compiled: the
caller declares the frame of the second, and the first is skipped. -/
theorem compileInOrder_clashing :
    ∃ compilation, clashing.compileInOrder sinkConfig clashing.methods.reverse = .ok compilation ∧
      compilation.report = { methodsCompiled := 2, methodsSkipped := 1, clauses := 6, queries := 1,
                             relations := 6 } :=
  exists_ok_of_any (by decide +kernel)

theorem report_counts_store_clashing :
    sinkConfig.validate = .ok () ∧
      (∀ entry ∈ clashing.methods, entry.2.shape.WellFormed) ∧
      ∃ compilation, clashing.compile sinkConfig = .ok compilation ∧
        compilation.report.methodsSkipped = 2 ∧
        compilation.report.clauses = compilation.store.clauses.length ∧
        compilation.report.queries = compilation.store.queries.length ∧
        compilation.report.methodsCompiled + compilation.report.methodsSkipped =
          clashing.methods.length := by
  have hvalid : sinkConfig.validate = .ok () := by decide +kernel
  have hfits : ∀ entry ∈ clashing.methods, entry.2.shape.WellFormed := by decide
  obtain ⟨compilation, hcompile, hreport, -⟩ := compile_clashing
  obtain ⟨heq, hcounts⟩ := report_counts_store hvalid
  refine ⟨hvalid, hfits, compilation, hcompile, by rw [hreport], ?_⟩
  exact hcounts clashing.methods compilation (List.Perm.refl _) (heq ▸ hcompile)

end Program

end DalvikHorn
