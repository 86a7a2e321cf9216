import DalvikHorn.Proofs.SinkCoverage

/-!
# What skipped methods leave behind

A method that meets a conflict is skipped, but storing it is not undone.  It is marked
before its clauses are looked at, if it calls a sink, and the declarations made before the
conflict stay.  So a store can have relations that occur nowhere, which the report does not
count, and marks of methods of which nothing is stored (`skipped_methods_leave_traces`).

Nothing else stays.  All other relations are asked for by a clause or a query and are
counted, every mark is that of a method that calls a sink, and without conflicts no method
leaves a trace (`traces_come_from_conflicts`).
-/

namespace DalvikHorn.Program

variable {program : Program} {config : Config} {labels : Labels}
  {order compiled : List (Class × Method)} {compilation : Compilation}

/-- A compilation that shows nothing of the methods that were not compiled.  All relations that are
declared occur in the store and are counted, and a marked method is asked about or it is a compiled
method that calls a sink. -/
structure LeavesNoTrace (config : Config) (compiled : List (Class × Method))
    (compilation : Compilation) : Prop where
  occurs : ∀ decl ∈ compilation.store.relations,
    ∃ atom ∈ compilation.store.applications, atom.relation = decl.name
  counted : compilation.report.relations = compilation.store.relations.length
  accounted : ∀ owner method, compilation.store.isSinkMethod owner method = true →
    (∃ query ∈ compilation.store.queries, query.key.owner = owner ∧ query.key.method = method) ∨
      ∃ entry ∈ compiled, entry.1.id = owner ∧ entry.2.id = method ∧ CallsSink config entry.2

theorem mem_applications_of_mem_declarations {store : Store} {decl : RelationDecl}
    (h : decl ∈ declarations store.clauses store.queries) :
    ∃ atom ∈ store.applications, atom.declaration = decl := by
  rcases mem_declarations.mp h with
    ⟨clause, hclause, atom, hatom, hdecl⟩ | ⟨query, hquery, atom, hatom, hdecl⟩
  · have hmem := Clause.mem_applications_of_mem_atoms hatom
    exact ⟨atom, List.mem_append_left _ (List.mem_flatMap.mpr ⟨clause, hclause, hmem⟩), hdecl⟩
  · have hmem := Formula.mem_applications_of_mem_atoms _ hatom
    exact ⟨atom, List.mem_append_right _ (List.mem_flatMap.mpr ⟨query, hquery, hmem⟩), hdecl⟩

/-! ## Outcomes -/

namespace Outcome

/-- A relation that no clause or query asks for was declared for a method that was not compiled
although its arguments fit. -/
theorem stored_or_skipped {env : Environment} (h : program.Outcome env order compiled compilation)
    {decl : RelationDecl} (hdecl : decl ∈ compilation.store.relations) :
    decl ∈ declarations compilation.store.clauses compilation.store.queries ∨
      ∃ entry ∈ order, entry ∉ compiled ∧ entry.2.shape.WellFormed ∧
        decl ∈ declarations (methodEmission env entry).clauses [] := by
  refine (h.bounded decl hdecl).imp_right ?_
  rintro ⟨entry, hentry, hskipped, hasked⟩
  refine ⟨entry, hentry, hskipped, ?_, hasked⟩
  by_contra hshape
  rw [methodEmission_of_not_wellFormed _ hshape] at hasked
  cases hasked

theorem isSinkMethod_iff (hlabels : config.labels = .ok labels)
    (h : program.Outcome (program.environment config labels) order compiled compilation)
    (owner : ClassId) (method : MethodId) :
    compilation.store.isSinkMethod owner method = true ↔
      ∃ entry ∈ order, entry.1.id = owner ∧ entry.2.id = method ∧ entry.2.shape.WellFormed ∧
        CallsSink config entry.2 := by
  rw [h.marked]
  constructor
  · rintro ⟨entry, hentry, hsink, howner, hmethod⟩
    have hshape : entry.2.shape.WellFormed := by
      by_contra hshape
      rw [methodEmission_of_not_wellFormed _ hshape] at hsink
      cases hsink
    have hcalls := (callsSink_methodEmission_iff hlabels hshape).mp hsink
    exact ⟨entry, hentry, howner, hmethod, hshape, hcalls⟩
  · rintro ⟨entry, hentry, howner, hmethod, hshape, hcalls⟩
    exact ⟨entry, hentry, (callsSink_methodEmission_iff hlabels hshape).mpr hcalls, howner, hmethod⟩

/-- When all methods with arguments that fit are compiled, no method leaves a trace. -/
theorem leavesNoTrace (hlabels : config.labels = .ok labels)
    (h : program.Outcome (program.environment config labels) order compiled compilation)
    (hall : ∀ entry ∈ order, entry.2.shape.WellFormed → entry ∈ compiled) :
    LeavesNoTrace config compiled compilation := by
  have hstored : ∀ decl ∈ compilation.store.relations,
      decl ∈ declarations compilation.store.clauses compilation.store.queries := by
    intro decl hdecl
    rcases h.stored_or_skipped hdecl with hstored | ⟨entry, hentry, hskipped, hshape, -⟩
    · exact hstored
    · exact absurd (hall entry hentry hshape) hskipped
  constructor
  case occurs =>
    intro decl hdecl
    obtain ⟨atom, hatom, rfl⟩ := mem_applications_of_mem_declarations (hstored decl hdecl)
    exact ⟨atom, hatom, rfl⟩
  case counted =>
    -- both sides are numbers of names, each counted once
    have hlength : compilation.store.relations.length =
        (compilation.store.relations.map (·.name)).length := (List.length_map _).symm
    rw [h.counted_relations, hlength]
    refine ((List.perm_ext_iff_of_nodup (nodup_eraseDups _) h.declaresOnce).mpr
      fun name => ?_).length_eq
    rw [List.mem_eraseDups, List.mem_map, List.mem_map]
    exact exists_congr fun decl => and_congr_left fun _ => ⟨h.declared decl, hstored decl⟩
  case accounted =>
    intro owner method hmarked
    obtain ⟨entry, hentry, howner, hmethod, hshape, hcalls⟩ :=
      (h.isSinkMethod_iff hlabels owner method).mp hmarked
    exact .inr ⟨entry, hall entry hentry hshape, howner, hmethod, hcalls⟩

end Outcome

/-! ## Programs -/

/-- The report counts the relations that the store asks for.  All other relations were declared for
methods that were skipped, and marks are set for the methods that call a sink, skipped or not.
When no method is skipped for a conflict, none leaves a trace. -/
theorem traces_come_from_conflicts (hvalid : config.validate = .ok ())
    (hlabels : config.labels = .ok labels) (horder : order.Perm program.methods)
    (hcompile : program.compileInOrder config order = .ok compilation) :
    program.compile config = program.compileInOrder config program.methods ∧
      compilation.report.relations =
        ((declarations compilation.store.clauses compilation.store.queries).map
          (·.name)).eraseDups.length ∧
      (∀ decl ∈ declarations compilation.store.clauses compilation.store.queries,
        decl ∈ compilation.store.relations) ∧
      (∀ decl ∈ compilation.store.relations,
        decl ∈ declarations compilation.store.clauses compilation.store.queries ∨
          ∃ entry ∈ order,
            entry ∉ program.compiledMethods (program.environment config labels) order ∧
            entry.2.shape.WellFormed ∧
            decl ∈ declarations
              (methodEmission (program.environment config labels) entry).clauses []) ∧
      (∀ owner method, compilation.store.isSinkMethod owner method = true ↔
        ∃ entry ∈ order, entry.1.id = owner ∧ entry.2.id = method ∧ entry.2.shape.WellFormed ∧
          CallsSink config entry.2) ∧
      (compilation.report.methodsSkipped =
          order.countP (fun entry => !decide entry.2.shape.WellFormed) →
        LeavesNoTrace config (program.compiledMethods (program.environment config labels) order)
          compilation) := by
  have houtcome := outcome_compileInOrder hvalid hlabels horder hcompile
  refine ⟨compile_eq_compileInOrder program config, houtcome.counted_relations, houtcome.declared,
    fun _ => houtcome.stored_or_skipped, houtcome.isSinkMethod_iff hlabels,
    fun hskipped => houtcome.leavesNoTrace hlabels ?_⟩
  intro entry hentry hshape
  rw [houtcome.eq_filter (methodsStored_sublist _ _ _) hskipped]
  exact List.mem_filter.mpr ⟨hentry, decide_eq_true hshape⟩

theorem traces_come_from_conflicts_colliding :
    sampleConfig.validate = .ok () ∧ colliding.methods.Perm colliding.methods ∧
      ∃ labels compilation, sampleConfig.labels = .ok labels ∧
        colliding.compileInOrder sampleConfig colliding.methods = .ok compilation ∧
        compilation.report.methodsSkipped =
          colliding.methods.countP (fun entry => !decide entry.2.shape.WellFormed) ∧
        LeavesNoTrace sampleConfig (colliding.compiledMethods
          (colliding.environment sampleConfig labels) colliding.methods) compilation := by
  have hvalid : sampleConfig.validate = .ok () := by decide +kernel
  have hshapes : colliding.ShapesAgree := by decide +kernel
  have horder := List.Perm.refl colliding.methods
  obtain ⟨labels, hlabels⟩ := labels_of_validate hvalid
  obtain ⟨-, compilation, hcompile, -, -, -, hskipped⟩ := compile_eq hshapes hvalid
  rw [compile_eq_compileInOrder] at hcompile
  obtain ⟨-, -, -, -, -, htraces⟩ := traces_come_from_conflicts hvalid hlabels horder hcompile
  exact ⟨hvalid, horder, labels, compilation, hlabels, hcompile, hskipped, htraces hskipped⟩

/-- The caller in `clashing` is skipped when it enters the frame of a method that is declared with
another size.  By then its own relations have been declared, and it is marked. -/
theorem skipped_methods_leave_traces :
    sinkConfig.validate = .ok () ∧
      ∃ labels compilation, sinkConfig.labels = .ok labels ∧
        clashing.compile sinkConfig = .ok compilation ∧
        (∃ decl ∈ compilation.store.relations,
          ∀ atom ∈ compilation.store.applications, atom.relation ≠ decl.name) ∧
        compilation.report.relations ≠ compilation.store.relations.length ∧
        (∃ owner method, compilation.store.isSinkMethod owner method = true ∧
          (∀ query ∈ compilation.store.queries, query.key.method ≠ method) ∧
          ∀ entry ∈ clashing.compiledMethods (clashing.environment sinkConfig labels)
            clashing.methods, entry.2.id ≠ method) ∧
        ¬ LeavesNoTrace sinkConfig (clashing.compiledMethods
          (clashing.environment sinkConfig labels) clashing.methods) compilation := by
  have hvalid : sinkConfig.validate = .ok () := by decide +kernel
  have hlabels : sinkConfig.labels = .ok
      { sources := [], sinks := [(textHash "Lc;", textHash "send(I)V")] } := by decide +kernel
  obtain ⟨compilation, hcompile, hreport, hrelations, hunused, hmarked, hqueries⟩ :=
    compile_clashing
  have hcount : compilation.report.relations ≠ compilation.store.relations.length := by
    rw [hreport, hrelations]
    decide
  have hother : textHash "Aa(I)V" ≠ textHash "main(I)V" := by decide +kernel
  refine ⟨hvalid, _, compilation, hlabels, hcompile, hunused, hcount,
    ⟨textHash "Lb;", textHash "main(I)V", hmarked, ?_, ?_⟩, fun h => hcount h.counted⟩
  · intro query hquery
    rw [hqueries query hquery]
    exact hother
  · decide +kernel

end DalvikHorn.Program
