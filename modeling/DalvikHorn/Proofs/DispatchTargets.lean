import DalvikHorn.Proofs.CompiledMethods
import DalvikHorn.Proofs.StateColumns

/-!
# Where control can go

A clause whose head is the relation of a program point passes control on: inside a method,
into a method that is called or started, to an entry point, or into the static initialiser
of a class.  A method whose arguments do not fit into its registers is not compiled, so
control that is passed to it is lost.  Calls, threads and entry points leave such methods
out.

The entry of a static initialiser does not.  Whether there is one is read off the class,
by name and whatever its shape is, while its frame is looked up like that of any method,
where shapes that do not fit are ignored.  So a class whose initialiser does not fit, below
a class with one that does, is entered in a frame that it does not have
(`initializer_that_does_not_fit_is_entered`).

Nothing else goes astray: every other point belongs to a method of the program that fits,
with the columns of its frame (`points_belong_to_methods`).

## Strategy

The heads of clauses are listed by `StepContext.Emitted` and `Environment.factClauses`.
A point relation names its method (`Relation.name_injective`), and the columns of a point
are those of a sorted state (`arity_pointAtom`).
-/

namespace DalvikHorn

/-- The number of columns of a point is that of its frame and of the local heap. -/
theorem arity_pointAtom {shape : FrameShape} {heapSize width : Nat} {state : State}
    (h : state.Sorted shape heapSize width) (point : ProgramPoint) :
    (pointAtom point state).arity = shape.pointArity heapSize := by
  rw [arity_pointAtom_of_length h.registers_length, h.heap_length]

theorem Relation.name_ne_point {relation : Relation} (h : ∀ point, relation ≠ .point point)
    (point : ProgramPoint) : relation.name ≠ point.relationName :=
  fun hname => h point (Relation.name_injective hname)

theorem GlobalHeap.IsFact.exists_relation {width : Nat} {atom : Atom}
    (h : GlobalHeap.IsFact width atom) :
    ∃ relation : Relation, relation.isGlobal ∧ atom.relation = relation.name := by
  cases h with
  | object => exact ⟨.object, rfl, rfl⟩
  | extra => exact ⟨.extra, rfl, rfl⟩
  | launch => exact ⟨.launch, rfl, rfl⟩
  | static => exact ⟨.static, rfl, rfl⟩

/-- A relation of the program as a whole is not that of a point. -/
theorem Relation.not_point_of_isGlobal {relation : Relation} (hglobal : relation.isGlobal)
    {atom : Atom} (hatom : atom.relation = relation.name) (point : ProgramPoint) :
    atom.relation ≠ point.relationName := by
  rw [hatom]
  refine name_ne_point ?_ point
  rintro other rfl
  cases hglobal

namespace Program

/-! ## Points of methods -/

/-- A point with a number of columns belongs to a method of the program whose arguments fit into
its registers. -/
def HasPoint (program : Program) (point : ProgramPoint) (arity : Nat) : Prop :=
  ∃ shape, program.Declares point.owner point.method shape ∧
    arity = shape.pointArity program.layout.size

/-- The class that an identifier stands for has a static initialiser, but none whose arguments fit
into its registers, and the nearest one above it has a shape. -/
structure InheritsInitializer (program : Program) (owner : ClassId) (shape : FrameShape) :
    Prop where
  named : ∃ decl ∈ program.classes, decl.id = owner ∧ decl.hasStaticInitializer = true ∧
    ∀ method ∈ decl.methods, method.id = textHash staticInitializer → ¬ method.shape.WellFormed
  inherited : ∃ ancestor, ancestor ≠ owner ∧
    program.classTable.lookup? owner (textHash staticInitializer) = some (ancestor, shape)

/-- The entry of a static initialiser that does not fit, with the columns of an inherited one. -/
def IsLostEntry (program : Program) (point : ProgramPoint) (arity : Nat) : Prop :=
  point.pc = 0 ∧ point.method = textHash staticInitializer ∧
    ∃ shape, program.InheritsInitializer point.owner shape ∧
      arity = shape.pointArity program.layout.size

variable {program : Program} {config : Config} {labels : Labels} {owner : ClassId}

/-- The frame in which a static initialiser is entered is that of a method of its class, or an
inherited one. -/
theorem initializer_cases {shape : FrameShape}
    (hinitializer : (program.oracle labels).hasStaticInitializer owner)
    (hshape : (program.oracle labels).methodShape owner (textHash staticInitializer) =
      some shape) :
    program.Declares owner (textHash staticInitializer) shape ∨
      program.InheritsInitializer owner shape := by
  obtain ⟨⟨ancestor, found⟩, hlookup, rfl⟩ := Option.map_eq_some_iff.mp hshape
  obtain ⟨-, hdeclared⟩ := ClassTable.lookup?_eq_some_iff.mp hlookup
  by_cases hown : ancestor = owner
  · exact .inl (declares_of_declaredShape? (hown ▸ hdeclared))
  · refine .inr ⟨?_, ancestor, hown, hlookup⟩
    obtain ⟨decl, hdecl, hsome⟩ := (Option.any_eq_true _ _).mp hinitializer
    obtain ⟨hclass, hid⟩ := mem_classes_of_class? hdecl
    refine ⟨decl, hclass, hid, hsome, fun method hmethod hsame hfits => hown ?_⟩
    -- a method that fits would be found before all inherited ones
    obtain ⟨own, hfound⟩ :=
      ClassTable.exists_declaredShape?_iff.mpr ⟨decl, hdecl, method, hmethod, hsame, hfits⟩
    rw [lookup?_of_declaredShape? hfound] at hlookup
    cases hlookup
    rfl

end Program

/-! ## Heads of clauses -/

namespace StepContext

variable {cx : StepContext} {program : Program} {config : Config} {labels : Labels}

/-- A point that an instruction passes control to belongs to a method, or it is the entry of a
static initialiser that does not fit. -/
theorem Emitted.point_cases (hstep : program.HasStep (program.environment config labels) cx)
    {clause : Clause} (h : cx.Emitted clause) {point : ProgramPoint}
    (hpoint : clause.head.relation = point.relationName) :
    program.HasPoint point clause.head.arity ∨ program.IsLostEntry point clause.head.arity := by
  have hlayout := hstep.layout_eq
  have horacle := hstep.oracle_eq
  -- two points have the same relation only if they are the same
  have hfound : ∀ {other : ProgramPoint} {shape : FrameShape} {state : State},
      other.relationName = point.relationName → program.Declares other.owner other.method shape →
      state.Sorted shape cx.layout.size cx.width →
        program.HasPoint point (pointAtom other state).arity := by
    intro other shape state hname hdeclares hstate
    rw [← ProgramPoint.relationName_injective hname, arity_pointAtom hstate, hlayout]
    exact ⟨shape, hdeclares, rfl⟩
  have hown : program.Declares cx.owner.id cx.method.id cx.shape :=
    ⟨hstep.wellFormed, (cx.owner, cx.method), hstep.mem, rfl, rfl, rfl⟩
  -- one case for each kind of clause; they differ in whose point the head is
  cases h with
  | step _ hpost => exact .inl (hfound hpoint hown hpost.sorted)
  | fact _ hhead =>
      obtain ⟨relation, hglobal, hname⟩ := hhead.exists_relation
      exact absurd hpoint (relation.not_point_of_isGlobal hglobal hname point)
  | enter _ htarget _ hentry =>
      exact .inl (hfound hpoint (Program.declares_of_targets (horacle ▸ htarget)) hentry.sorted)
  | leave _ _ _ _ _ hhigh =>
      exact .inl (hfound hpoint hown (sorted_afterReturn_result hhigh))
  | @startInitializer owner shape hinitializer hshape =>
      -- the initializer is declared by the class or inherited by it
      rcases Program.initializer_cases (horacle ▸ hinitializer) (horacle ▸ hshape) with
        hdeclares | hinherits
      · exact .inl (hfound hpoint hdeclares (sorted_zeroed_pre shape))
      · refine .inr ?_
        rw [← ProgramPoint.relationName_injective hpoint]
        refine ⟨rfl, rfl, shape, hinherits, ?_⟩
        rw [← hlayout]
        exact arity_pointAtom (sorted_zeroed_pre shape) _
  | exit _ =>
      -- the relation of an exit is no point
      have hexit : ∀ other, Relation.exit cx.owner.id cx.method.id ≠ .point other := nofun
      exact absurd hpoint (Relation.name_ne_point hexit point)

end StepContext

namespace Program

variable {program : Program} {config : Config} {labels : Labels}

theorem hasPoint_of_mem_factClauses {clause : Clause}
    (hclause : clause ∈ (program.environment config labels).factClauses program)
    {point : ProgramPoint} (hpoint : clause.head.relation = point.relationName) :
    program.HasPoint point clause.head.arity := by
  rcases Environment.factClause_cases hclause with
    ⟨relation, hglobal, hname⟩ | ⟨entry, hentry, rfl⟩
  · exact absurd hpoint (relation.not_point_of_isGlobal hglobal hname point)
  · obtain ⟨hmem, hfits⟩ := List.mem_filter.mp hentry
    have hshape : entry.2.shape.WellFormed := by
      simp only [Bool.and_eq_true, decide_eq_true_eq] at hfits
      exact hfits.2
    rw [← ProgramPoint.relationName_injective hpoint]
    exact ⟨entry.2.shape, ⟨hshape, entry, hmem, rfl, rfl, rfl⟩,
      arity_pointAtom (Environment.sorted_startFrame _ entry.2) _⟩

/-! ## Compiled programs -/

/-- Every point that a stored clause derives belongs to a method of the program whose arguments fit,
with the columns of that method, unless it is the entry of a static initialiser that does not fit.
When every class with a static initialiser has one that fits, there are no such entries.  This
holds in whichever order the methods are stored. -/
theorem points_belong_to_methods {order : List (Class × Method)}
    (horder : order.Perm program.methods) {compilation : Compilation}
    (hcompile : program.compileInOrder config order = .ok compilation) :
    program.compile config = program.compileInOrder config program.methods ∧
    (∀ clause ∈ compilation.store.clauses, ∀ point : ProgramPoint,
        clause.head.relation = point.relationName →
        program.HasPoint point clause.head.arity ∨ program.IsLostEntry point clause.head.arity) ∧
      ((∀ decl ∈ program.classes, decl.hasStaticInitializer = true →
          ∃ method ∈ decl.methods, method.id = textHash staticInitializer ∧
            method.shape.WellFormed) →
        ∀ clause ∈ compilation.store.clauses, ∀ point : ProgramPoint,
          clause.head.relation = point.relationName →
          program.HasPoint point clause.head.arity) := by
  obtain ⟨labels, -, houtcome⟩ := outcome_of_compileInOrder horder hcompile
  have hpoints : ∀ clause ∈ compilation.store.clauses, ∀ point : ProgramPoint,
      clause.head.relation = point.relationName →
      program.HasPoint point clause.head.arity ∨
        program.IsLostEntry point clause.head.arity := by
    intro clause hclause point hpoint
    rcases houtcome.clause_cases horder hclause with hfact | ⟨cx, hstep, hclause⟩
    · exact .inl (hasPoint_of_mem_factClauses hfact hpoint)
    · exact (hstep.emitted hclause).point_cases hstep hpoint
  refine ⟨compile_eq_compileInOrder program config, hpoints, fun hfits clause hclause point hpoint => ?_⟩
  rcases hpoints clause hclause point hpoint with hhas | ⟨-, -, shape, hinherits, -⟩
  · exact hhas
  · obtain ⟨decl, hdecl, -, hnamed, hnone⟩ := hinherits.named
    obtain ⟨method, hmethod, hid, hfit⟩ := hfits decl hdecl hnamed
    exact absurd hfit (hnone method hmethod hid)

/-- A class with a static initialiser that has one argument and some registers, below a class with
one that has no arguments, and an entry point that allocates an object of it. -/
def overriding (registers : UInt32) : Program where
  classes :=
    [{ name := "La;", superClass := some "Lb;"
       methods :=
         [{ name := "<clinit>()V", numRegisters := registers, numArguments := 1, isStatic := true
            instructions := [{ pc := 0, mnemonic := "return-void" }] }] },
      { name := "Lb;"
        methods :=
          [{ name := "<clinit>()V", numRegisters := 0, numArguments := 0, isStatic := true
             instructions := [{ pc := 0, mnemonic := "return-void" }] }] },
      { name := "Lc;"
        methods :=
          [{ name := "main()V", numRegisters := 1, numArguments := 0, isStatic := true,
             entryPoint := true
             instructions :=
               [{ pc := 0, mnemonic := "new-instance", registers := [0], reference := some "La;" },
                 { pc := 2, mnemonic := "return-void" }] }] }]

/-- The entry of the static initialiser that `overriding` allocates below. -/
def overridingEntry : ProgramPoint where
  owner := textHash "La;"
  method := textHash staticInitializer
  pc := 0

theorem points_belong_to_methods_overriding :
    (overriding 1).methods.reverse.Perm (overriding 1).methods ∧
      (∀ decl ∈ (overriding 1).classes, decl.hasStaticInitializer = true →
        ∃ method ∈ decl.methods, method.id = textHash staticInitializer ∧
          method.shape.WellFormed) ∧
      ∃ compilation, (overriding 1).compileInOrder sinkConfig (overriding 1).methods.reverse =
          .ok compilation ∧
        ∃ clause ∈ compilation.store.clauses,
          clause.head.relation = overridingEntry.relationName ∧
          (overriding 1).HasPoint overridingEntry clause.head.arity := by
  have hreverse : (overriding 1).methods.reverse.Perm (overriding 1).methods :=
    List.reverse_perm _
  have hfits : ∀ decl ∈ (overriding 1).classes, decl.hasStaticInitializer = true →
      ∃ method ∈ decl.methods, method.id = textHash staticInitializer ∧
        method.shape.WellFormed := by decide +kernel
  obtain ⟨compilation, hcompile, clause, hclause, hentry⟩ : ∃ compilation,
      (overriding 1).compileInOrder sinkConfig (overriding 1).methods.reverse = .ok compilation ∧
        ∃ clause ∈ compilation.store.clauses,
          clause.head.relation = overridingEntry.relationName :=
    exists_ok_of_any (by decide +kernel)
  obtain ⟨-, -, hpoints⟩ := points_belong_to_methods hreverse hcompile
  exact ⟨hreverse, hfits, compilation, hcompile, clause, hclause, hentry,
    hpoints hfits clause hclause overridingEntry hentry⟩

/-- The initialiser with an argument and no register is entered, although its class has no method of
its name that fits. -/
theorem initializer_that_does_not_fit_is_entered :
    ∃ compilation, (overriding 0).compile sinkConfig = .ok compilation ∧
      ∃ clause ∈ compilation.store.clauses, ∃ point : ProgramPoint,
        clause.head.relation = point.relationName ∧
        (∃ entry ∈ (overriding 0).methods, entry.1.id = point.owner ∧ entry.2.id = point.method ∧
          ¬ entry.2.shape.WellFormed) ∧
        ∀ arity, ¬ (overriding 0).HasPoint point arity := by
  obtain ⟨compilation, hcompile, clause, hclause, hentry⟩ : ∃ compilation,
      (overriding 0).compile sinkConfig = .ok compilation ∧
        ∃ clause ∈ compilation.store.clauses,
          clause.head.relation = overridingEntry.relationName :=
    exists_ok_of_any (by decide +kernel)
  have hnone : ∀ entry ∈ (overriding 0).methods, entry.1.id = overridingEntry.owner →
      entry.2.id = overridingEntry.method → ¬ entry.2.shape.WellFormed := by decide +kernel
  have hsome : ∃ entry ∈ (overriding 0).methods, entry.1.id = overridingEntry.owner ∧
      entry.2.id = overridingEntry.method ∧ ¬ entry.2.shape.WellFormed := by decide +kernel
  refine ⟨compilation, hcompile, clause, hclause, overridingEntry, hentry, hsome, ?_⟩
  rintro arity ⟨shape, hdeclares, -⟩
  obtain ⟨entry, hmem, howner, hmethod, rfl⟩ := hdeclares.declared
  exact hnone entry hmem howner hmethod hdeclares.wellFormed

end Program

end DalvikHorn
