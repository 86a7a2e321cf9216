import DalvikHorn.Proofs.Consistency
import DalvikHorn.Proofs.Declarations

/-!
# When compilation fails

The methods of a program are compiled one after the other, and whatever goes wrong
with one of them concerns that method alone: a method whose arguments do not fit is
skipped, an instruction that cannot be compiled is passed over, and a method whose
clauses conflict with the store is left out.  No object is allocated at an unknown
site, because the layout has a site for every allocation that an instruction can
reach.

The facts of the program are stored before any method, and a conflict among them
ends the compilation.  Facts of the global relations have fixed columns, so the only
conflict is between two entry points that share the name of their first relation:
they have the same class and signature but frames of different sizes.

Sums of 32 bits wrap, as in a build without overflow checks.  A range of registers
whose end wraps is read as no registers at all (`RegisterRange.toNat_registers`), the
position behind the last one is zero, and neither ends the compilation.  A build with
overflow checks panics at such a range and at such a position, and compiles all other
programs alike.  That the slots of a frame can be counted is a hypothesis.

## Strategy

* `compileMethods_ok`: one step of the run never fails, hence no run does.
* `compatible_factClauses_iff`: the facts of a program are compatible exactly when
  entry points of one name have frames of one size.
-/

namespace DalvikHorn

/-! ## Ranges of registers -/

/-- A range of registers holds the consecutive ones, or none when its end lies behind the last
register that there can be. -/
theorem RegisterRange.toNat_registers (range : RegisterRange) :
    range.registers.map UInt32.toNat =
      if range.start.toNat + range.count.toNat < UInt32.size then
        List.range' range.start.toNat range.count.toNat
      else [] := by
  have hsize : UInt32.size = 2 ^ 32 := rfl
  have hstart := range.start.toNat_lt_size
  have hcount := range.count.toNat_lt_size
  have hstop : range.stop.toNat = (range.start.toNat + range.count.toNat) % 2 ^ 32 :=
    UInt32.toNat_add ..
  rw [registers, List.map_map]
  split
  · have hlength : range.stop.toNat - range.start.toNat = range.count.toNat := by omega
    rw [hlength]
    refine (List.map_congr_left fun register hregister => ?_).trans (List.map_id _)
    have hbounds := List.mem_range'_1.mp hregister
    exact UInt32.toNat_ofNat_of_lt' (by omega)
  · have hlength : range.stop.toNat - range.start.toNat = 0 := by omega
    rw [hlength]
    rfl

/-! ## Runs over methods -/

namespace Program

variable {program : Program} {config : Config} {labels : Labels}

/-- What a method contributes; nothing when its arguments do not fit. -/
def methodEmission (env : Environment) (entry : Class × Method) : Emission :=
  .join ((methodContexts env entry.1 entry.2).map (·.emission))

theorem methodEmission_of_not_wellFormed (env : Environment) {entry : Class × Method}
    (hshape : ¬ entry.2.shape.WellFormed) : methodEmission env entry = {} := by
  have hnone : methodContexts env entry.1 entry.2 = [] := if_neg hshape
  rw [methodEmission, hnone]
  rfl

theorem clauses_methodEmission (env : Environment) (entry : Class × Method) :
    (methodEmission env entry).clauses =
      (methodContexts env entry.1 entry.2).flatMap (·.emission.clauses) := by
  rw [methodEmission, Emission.clauses_join, List.flatMap_map]

theorem queries_methodEmission (env : Environment) (entry : Class × Method) :
    (methodEmission env entry).queries =
      (methodContexts env entry.1 entry.2).flatMap (·.emission.queries) := by
  rw [methodEmission, Emission.queries_join, List.flatMap_map]

/-- A method whose arguments do not fit is counted, and the run goes on. -/
theorem compileMethods_of_not_wellFormed {entry : Class × Method} {rest : List (Class × Method)}
    (hshape : ¬ entry.2.shape.WellFormed) (requests : Nat) (tally : Tally) (store : Store) :
    ∃ after, (program.environment config labels).compileMethods .together requests tally store
        (entry :: rest) =
      (program.environment config labels).compileMethods .together after tally.skipped store
        rest := by
  refine ⟨((program.environment config labels).contexts requests entry.1 entry.2).2, ?_⟩
  simp only [Environment.compileMethods, Environment.compileMethod, Environment.checkShape,
    if_neg hshape, Bind.bind, Except.bind]
  rfl

/-- What a run does with a method whose arguments fit: it stores what the method contributes, or
counts the method as skipped. -/
theorem compileMethods_of_wellFormed {entry : Class × Method} {rest : List (Class × Method)}
    (hmem : entry ∈ program.methods) (hshape : entry.2.shape.WellFormed) (requests : Nat)
    (tally : Tally) (store : Store) :
    ∃ after, (program.environment config labels).compileMethods .together requests tally store
        (entry :: rest) =
      match (methodEmission (program.environment config labels) entry).store .together entry.1.id
          entry.2.id store with
      | (next, none) =>
          (program.environment config labels).compileMethods .together after
            (tally.compiled (methodEmission (program.environment config labels) entry)) next rest
      | (next, some _) =>
          (program.environment config labels).compileMethods .together after tally.skipped next
            rest := by
  have hnames : ∀ request,
      (program.environment config labels).oracle.allocationId request = siteHash := fun _ => rfl
  have hcompiled : (program.environment config labels).compileMethod requests entry.1 entry.2 =
      .ok (methodEmission (program.environment config labels) entry) :=
    Environment.compileMethod_eq hnames hshape
      (fun cx hcx => (hasStep_of_mem_methodContexts hmem hcx).compileOrSkip_eq.1) requests
  refine ⟨((program.environment config labels).contexts requests entry.1 entry.2).2, ?_⟩
  simp only [Environment.compileMethods, hcompiled]
  cases houtcome : (methodEmission (program.environment config labels) entry).store .together
      entry.1.id entry.2.id store with
  | mk next conflict =>
      cases conflict with
      | none => rfl
      | some cause =>
          have hkind : cause.kind = .compile := Emission.kind_of_store (by rw [houtcome])
          have hfatal : cause.fatal = false := by simp [Error.fatal, hkind]
          simp only [hfatal]
          rfl

/-- A run over methods of the program ends, and skips at least those whose arguments do not
fit. -/
theorem compileMethods_ok (config : Config) (labels : Labels) {methods : List (Class × Method)}
    (hmethods : ∀ entry ∈ methods, entry ∈ program.methods) (requests : Nat) (tally : Tally)
    (store : Store) :
    ∃ final next,
      (program.environment config labels).compileMethods .together requests tally store methods =
        .ok (final, next) ∧
      tally.methodsSkipped + methods.countP (fun entry => !decide entry.2.shape.WellFormed) ≤
        final.methodsSkipped := by
  induction methods generalizing requests tally store with
  | nil => exact ⟨tally, store, rfl, by simp⟩
  | cons entry rest ih =>
      have hrest : ∀ other ∈ rest, other ∈ program.methods := fun other hother =>
        hmethods other (List.mem_cons_of_mem _ hother)
      have hcount : tally.skipped.methodsSkipped = tally.methodsSkipped + 1 := rfl
      by_cases hshape : entry.2.shape.WellFormed
      · obtain ⟨after, hstep⟩ := compileMethods_of_wellFormed (hmethods entry List.mem_cons_self)
          hshape requests tally store
        rw [hstep, List.countP_cons_of_neg (by simpa using hshape)]
        -- the method is stored or meets a conflict, and the run goes on either way
        split
        · rename_i stored _
          obtain ⟨final, next, hrun, hskipped⟩ := ih hrest after (tally.compiled _) stored
          exact ⟨final, next, hrun, hskipped⟩
        · rename_i stored _ _
          obtain ⟨final, next, hrun, hskipped⟩ := ih hrest after tally.skipped stored
          exact ⟨final, next, hrun, by omega⟩
      · obtain ⟨after, hstep⟩ := compileMethods_of_not_wellFormed hshape requests tally store
        obtain ⟨final, next, hrun, hskipped⟩ := ih hrest after tally.skipped store
        refine ⟨final, next, by rw [hstep, hrun], ?_⟩
        rw [List.countP_cons_of_pos (by simpa using hshape)]
        omega

end Program

/-! ## The facts of a program -/

theorem Formula.Sorted.atoms_eq_nil {width : Nat} {formula : Formula} (h : formula.Sorted width) :
    formula.atoms = [] := by
  refine List.eq_nil_iff_forall_not_mem.mpr fun atom hatom => ?_
  have hmem := Formula.mem_applications_of_mem_atoms formula hatom
  rw [h.applications] at hmem
  cases hmem

theorem Formula.mem_atomsList {atom : Atom} {parts : List Formula} :
    atom ∈ Formula.atomsList parts ↔ ∃ part ∈ parts, atom ∈ part.atoms := by
  induction parts with
  | nil => simp [Formula.atomsList]
  | cons part rest ih => simp [Formula.atomsList, ih]

section Facts

variable {program : Program} {env : Environment}

/-- The rules of reachability ask only for what is reachable. -/
theorem atoms_reachabilityRules {layout : HeapLayout} {width : Nat} {clause : Clause}
    (hclause : clause ∈ reachabilityRules layout width) {part : Formula}
    (hpart : part ∈ clause.body) {atom : Atom} (hatom : atom ∈ part.atoms) :
    atom.relation = Relation.reach.name := by
  simp only [reachabilityRules, List.cons_append, List.mem_cons, List.mem_append] at hclause
  rcases hclause with rfl | hclause | hclause
  · cases hpart
  · obtain ⟨site, -, hclause⟩ := List.mem_flatMap.mp hclause
    obtain ⟨k, -, rfl⟩ := List.mem_map.mp hclause
    have hslot : (HeapSlot.canonical Names.ownHeap k width).cell.Sorted width :=
      (HeapSlot.sorted_canonical Names.isHeap_ownHeap k).cell
    have hsome : (Formula.any ((layout.sites.map fun site =>
        GlobalHeap.idLiteral width site.id).map
          (HeapSlot.canonical Names.ownHeap k width).cell.value.eqTo)).Sorted width := by
      refine Formula.sorted_any fun other hother => ?_
      obtain ⟨id, hid, rfl⟩ := List.mem_map.mp hother
      obtain ⟨target, -, rfl⟩ := List.mem_map.mp hid
      exact hslot.value.eqTo (GlobalHeap.sorted_idLiteral _)
    simp only [List.mem_cons, List.not_mem_nil, or_false] at hpart
    -- only the first part applies a relation; the others are flags and comparisons
    rcases hpart with rfl | rfl | rfl
    · rw [List.mem_singleton.mp hatom]
      rfl
    · rw [hslot.isLocal.atoms_eq_nil] at hatom
      cases hatom
    · rw [hsome.atoms_eq_nil] at hatom
      cases hatom
  · obtain ⟨j, hj, rfl⟩ := List.mem_mapIdx.mp hclause
    rw [List.mem_singleton.mp hpart] at hatom
    rw [List.mem_singleton.mp hatom]
    rfl

/-- A fact asks only for facts of the global relations. -/
theorem bodyAtoms_factClauses {clause : Clause} (hclause : clause ∈ env.factClauses program)
    {part : Formula} (hpart : part ∈ clause.body) {atom : Atom} (hatom : atom ∈ part.atoms) :
    ∃ relation : Relation, relation.isGlobal ∧ atom.relation = relation.name := by
  simp only [Environment.factClauses, List.mem_append] at hclause
  rcases hclause with ((hclause | hclause) | hclause) | hclause
  · split at hclause
    · rw [List.mem_singleton.mp hclause] at hpart
      simp only [GlobalHeap.activityResultRule, List.mem_cons, List.not_mem_nil, or_false] at hpart
      rcases hpart with rfl | rfl | rfl <;>
        exact ⟨.object, rfl, congrArg Atom.relation (List.mem_singleton.mp hatom)⟩
    · cases hclause
  · obtain ⟨decl, -, hclause⟩ := List.mem_flatMap.mp hclause
    obtain ⟨field, -, hclause⟩ := List.mem_filterMap.mp hclause
    obtain ⟨value, -, rfl⟩ := Option.map_eq_some_iff.mp hclause
    cases hpart
  · split at hclause
    · exact ⟨.reach, rfl, atoms_reachabilityRules hclause hpart hatom⟩
    · cases hclause
  · obtain ⟨entry, -, rfl⟩ := List.mem_map.mp hclause
    dsimp only [Environment.startClause] at hpart
    split at hpart
    · cases hpart
    · rw [List.mem_singleton.mp hpart] at hatom
      exact ⟨.launch, rfl, congrArg Atom.relation (List.mem_singleton.mp hatom)⟩

/-- The facts of a program apply global relations, and the first relations of its entry
points. -/
theorem atoms_factClauses {clause : Clause} (hclause : clause ∈ env.factClauses program)
    {atom : Atom} (hatom : atom ∈ clause.atoms) :
    (∃ relation : Relation, relation.isGlobal ∧ atom.relation = relation.name) ∨
      ∃ entry ∈ program.entryPoints, atom = (env.startClause entry.1 entry.2).head := by
  rcases List.mem_append.mp hatom with hbody | hhead
  · obtain ⟨part, hpart, hmem⟩ := Formula.mem_atomsList.mp hbody
    exact .inl (bodyAtoms_factClauses hclause hpart hmem)
  · rw [List.mem_singleton.mp hhead]
    rcases Environment.factClause_cases hclause with hglobal | ⟨entry, hentry, rfl⟩
    · exact .inl hglobal
    · exact .inr ⟨entry, hentry, rfl⟩

theorem signature_startClause (env : Environment) (entry : Class × Method) :
    (env.startClause entry.1 entry.2).head.signature =
      frameSorts env.width entry.2.shape.slotCount ++ heapSorts env.width env.layout.size := by
  have hsorted := env.sorted_startFrame (siteHash entry.1.id 0 0) entry.2
  rw [Environment.startClause, Atom.signature, pointAtom, List.map_append,
    sort_frameColumns hsorted.registers, sort_heapColumns hsorted.heap, hsorted.registers_length,
    hsorted.heap_length]

/-- The entry points that share a first relation have frames of one size. -/
def Program.EntriesAgree (program : Program) : Prop :=
  ∀ first ∈ program.entryPoints, ∀ second ∈ program.entryPoints,
    first.1.id = second.1.id → first.2.id = second.2.id →
      first.2.shape.slotCount = second.2.shape.slotCount

/-- The start of an entry point is declared with the facts. -/
theorem declaration_startClause_mem {entry : Class × Method}
    (hentry : entry ∈ program.entryPoints) :
    (env.startClause entry.1 entry.2).head.declaration ∈
      declarations (env.factClauses program) [] := by
  refine mem_declarations.mpr (.inl ⟨env.startClause entry.1 entry.2, ?_, _, ?_, rfl⟩)
  · exact List.mem_append_right _ (List.mem_map.mpr ⟨entry, hentry, rfl⟩)
  · exact List.mem_append_right _ (List.mem_singleton_self _)

/-- What is declared with the facts is an atom whose relation and signature are known. -/
theorem exists_atom_of_mem_declarations (hlayout : env.layout = program.layout)
    {decl : RelationDecl} (hdecl : decl ∈ declarations (env.factClauses program) []) :
    ∃ atom, atom.declaration = decl ∧ program.Relates env.width atom ∧
      ((∃ relation : Relation, relation.isGlobal ∧ atom.relation = relation.name) ∨
        ∃ entry ∈ program.entryPoints, atom = (env.startClause entry.1 entry.2).head) := by
  rcases mem_declarations.mp hdecl with ⟨clause, hclause, atom, hatom, hdecl⟩ | ⟨_, hquery, _⟩
  · have hadmissible := admissible_factClauses hlayout clause hclause
    exact ⟨atom, hdecl, hadmissible.applications atom (Clause.mem_applications_of_mem_atoms hatom),
      atoms_factClauses hclause hatom⟩
  · cases hquery

/-- The facts of a program are compatible exactly when its entry points agree. -/
theorem compatible_factClauses_iff (hlayout : env.layout = program.layout) :
    Compatible (declarations (env.factClauses program) []) ↔ program.EntriesAgree := by
  constructor
  · intro hcompatible first hfirst second hsecond howner hmethod
    have hname : (env.startClause first.1 first.2).head.relation =
        (env.startClause second.1 second.2).head.relation := by
      simp only [Environment.startClause, pointAtom, howner, hmethod]
    have hsame := hcompatible _ (declaration_startClause_mem hfirst) _
      (declaration_startClause_mem hsecond) hname
    have hsignature : (env.startClause first.1 first.2).head.signature =
        (env.startClause second.1 second.2).head.signature := congrArg RelationDecl.signature hsame
    rw [signature_startClause, signature_startClause] at hsignature
    have hlength := congrArg List.length hsignature
    simp only [List.length_append, length_frameSorts, length_heapSorts] at hlength
    omega
  · intro hagree first hfirst second hsecond hname
    obtain ⟨one, rfl, ⟨relation, hrelation, hsignature⟩, hone⟩ :=
      exists_atom_of_mem_declarations hlayout hfirst
    obtain ⟨other, rfl, ⟨relation', hrelation', hsignature'⟩, hother⟩ :=
      exists_atom_of_mem_declarations hlayout hsecond
    have hrelations : one.relation = other.relation := hname
    have hsame : relation = relation' :=
      Relation.name_injective (by rw [← hrelation, hrelations, hrelation'])
    subst hsame
    have hsignatures : one.signature = other.signature := by
      -- a relation of the whole program has one signature; any other starts an entry point
      rcases hone with ⟨global, hglobal, hnamed⟩ | ⟨entry, hentry, rfl⟩
      · have hrelated : relation = global := Relation.name_injective (by rw [← hrelation, hnamed])
        exact hsignature.unique_of_isGlobal (hrelated ▸ hglobal) hsignature'
      · rcases hother with ⟨global, hglobal, hnamed⟩ | ⟨entry', hentry', rfl⟩
        · have hrelated : relation = global :=
            Relation.name_injective (by rw [← hrelation', hnamed])
          exact hsignature.unique_of_isGlobal (hrelated ▸ hglobal) hsignature'
        · have hpoint := ProgramPoint.relationName_injective hrelations
          simp only [ProgramPoint.mk.injEq] at hpoint
          rw [signature_startClause, signature_startClause,
            hagree entry hentry entry' hentry' hpoint.1 hpoint.2.1]
    simp only [Atom.declaration, hrelations, hsignatures]

end Facts

/-! ## Compilation -/

namespace Program

variable {program : Program} {config : Config} {labels : Labels}

/-- The facts are stored and the run over the methods ends, or the facts are in conflict. -/
theorem fill_cases (config : Config) (labels : Labels) {order : List (Class × Method)}
    (horder : ∀ entry ∈ order, entry ∈ program.methods) :
    (∃ store requests tally final next,
        Store.empty.Filled store ((program.environment config labels).factClauses program) [] ∧
        (program.environment config labels).compileMethods .together requests tally store order =
          .ok (final, next) ∧
        tally.methodsSkipped = 0 ∧
        program.fill (program.environment config labels) order = .ok ⟨next, final.report⟩) ∨
      ∃ cause, program.fill (program.environment config labels) order = .error cause ∧
        cause.kind = .compile ∧
        ¬ Compatible (declarations ((program.environment config labels).factClauses program) []) := by
  have hnames : ∀ request,
      (program.environment config labels).oracle.allocationId request = siteHash := fun _ => rfl
  have hfacts := Environment.facts_eq hnames program.localAllocations.length program
  generalize (program.environment config labels).factClauses program = facts at hfacts ⊢
  unfold fill
  dsimp only
  rw [hfacts]
  dsimp only [Bind.bind, Except.bind]
  -- either all facts are stored or the first conflict ends the compilation
  rcases Store.declaresOnce_empty.addClauses_cases facts with
    ⟨store, hstored, hfilled⟩ | ⟨store, cause, hstored, hne⟩
  · obtain ⟨final, next, hrun, -⟩ := compileMethods_ok config labels horder
      (program.localAllocations.length + Environment.factRequests program)
      (Tally.record {} { clauses := facts }) store
    refine .inl ⟨store, _, _, final, next, hfilled, hrun, rfl, ?_⟩
    rw [hstored]
    dsimp only
    rw [hrun]
    rfl
  · refine .inr ⟨cause, ?_, Store.kind_of_addClauses (by rw [hstored]), hne⟩
    rw [hstored]
    rfl

/-- No allocation of a compiled instruction is at an unknown site, and whatever else is wrong
with an instruction, it is passed over. -/
theorem compileOrSkip_ok {entry : Class × Method} (hmem : entry ∈ program.methods)
    {requests : Nat} {cx : StepContext}
    (hcx : cx ∈ ((program.environment config labels).contexts requests entry.1 entry.2).1) :
    (∃ emission, cx.compileOrSkip = .ok emission) ∧
      ∀ cause, cx.compile = .error cause → cause.kind ≠ .inconsistentAllocation := by
  have hnames : ∀ request,
      (program.environment config labels).oracle.allocationId request = siteHash := fun _ => rfl
  rw [Environment.contexts_eq hnames] at hcx
  have hok := (hasStep_of_mem_methodContexts hmem hcx).compileOrSkip_eq.1
  refine ⟨⟨_, hok⟩, fun cause hcause hkind => ?_⟩
  have hfatal : cause.fatal = true := by simp [Error.fatal, hkind]
  simp [StepContext.compileOrSkip, hcause, hfatal] at hok

/-- Compilation fails exactly when two entry points have the same class and signature but frames
with different counts of slots, and then with a conflict that is not fatal.  Nothing that an
instruction or another method does ends it. -/
theorem compile_fails_iff (program : Program) (hslots : program.SlotsFit)
    (hvalid : config.validate = .ok ()) :
    ((∃ cause, program.compile config = .error cause) ↔
        ∃ first ∈ program.entryPoints, ∃ second ∈ program.entryPoints,
          first.1.id = second.1.id ∧ first.2.id = second.2.id ∧
            first.2.shape.countSlots ≠ second.2.shape.countSlots) ∧
      (∀ cause, program.compile config = .error cause →
        cause.kind = .compile ∧ cause.fatal = false) ∧
      ∀ labels, config.labels = .ok labels → ∀ entry ∈ program.methods, ∀ requests,
        ∀ cx ∈ ((program.environment config labels).contexts requests entry.1 entry.2).1,
          (∃ emission, cx.compileOrSkip = .ok emission) ∧
            ∀ cause, cx.compile = .error cause → cause.kind ≠ .inconsistentAllocation := by
  obtain ⟨labels, hlabels⟩ := labels_of_validate hvalid
  have hagree : Compatible (declarations
      ((program.environment config labels).factClauses program) []) ↔ program.EntriesAgree :=
    compatible_factClauses_iff rfl
  have hfits : ∀ entry ∈ program.entryPoints, entry.2.shape.SlotsFit :=
    fun entry hentry => hslots entry (List.mem_of_mem_filter hentry)
  have hconflict : ¬ program.EntriesAgree ↔
      ∃ first ∈ program.entryPoints, ∃ second ∈ program.entryPoints,
        first.1.id = second.1.id ∧ first.2.id = second.2.id ∧
          first.2.shape.countSlots ≠ second.2.shape.countSlots := by
    rw [EntriesAgree]
    push Not
    refine exists_congr fun first => and_congr_right fun hfirst => ?_
    refine exists_congr fun second => and_congr_right fun hsecond => ?_
    refine and_congr_right fun _ => and_congr_right fun _ => not_congr ?_
    exact (FrameShape.countSlots_eq_iff (hfits first hfirst) (hfits second hsecond)).symm
  rw [← hconflict, ← hagree, compile_eq_fill hvalid hlabels]
  refine ⟨?_, ?_, fun _ _ _ hmem _ _ hcx => compileOrSkip_ok hmem hcx⟩
  · -- the run over the methods never fails, so the facts decide
    rcases fill_cases config labels (fun _ hentry => hentry) with
      ⟨store, _, _, _, _, hfilled, -, -, hfill⟩ | ⟨cause, hfill, -, hne⟩
    · rw [hfill]
      constructor
      · rintro ⟨cause, hcause⟩
        cases hcause
      · exact fun hne => absurd hfilled.compatible hne
    · exact ⟨fun _ => hne, fun _ => ⟨cause, hfill⟩⟩
  · intro cause hcause
    rcases fill_cases config labels (fun _ hentry => hentry) with
      ⟨_, _, _, _, _, -, -, -, hfill⟩ | ⟨conflict, hfill, hkind, -⟩
    · rw [hfill] at hcause
      cases hcause
    · rw [hfill] at hcause
      cases hcause
      exact ⟨hkind, by simp [Error.fatal, hkind]⟩

/-- A class that starts in two methods of one signature, of which the second has some number of
registers, with instructions that lack an operand, a payload and a known type, that take a range
of registers behind the last, and that stand at the last position. -/
def twofold (registers : UInt32) : Program where
  classes :=
    [{ name := "La;"
       methods :=
         [{ name := "start()V", numRegisters := 1, numArguments := 0, isStatic := true,
            entryPoint := true
            instructions :=
              [{ pc := 0, mnemonic := "move", registers := [0] },
                { pc := 1, mnemonic := "packed-switch", registers := [0], target := some 7 },
                { pc := 4, mnemonic := "new-instance", registers := [0], reference := some "Lz;" },
                { pc := 6, mnemonic := "filled-new-array/range", reference := some "[I",
                  registerRange := some { start := 4294967295, count := 1 } },
                { pc := 4294967295, mnemonic := "nop" }] },
           { name := "start()V", numRegisters := registers, numArguments := 0, isStatic := true,
             entryPoint := true },
           { name := "broken(I)V", numRegisters := 0, numArguments := 1, isStatic := true }] }]

theorem compile_fails_twofold :
    (twofold 2).SlotsFit ∧ (twofold 1).SlotsFit ∧ sampleConfig.validate = .ok () ∧
      (∃ cause, (twofold 2).compile sampleConfig = .error cause ∧ cause.kind = .compile) ∧
      ∃ compilation, (twofold 1).compile sampleConfig = .ok compilation := by
  have hclashFits : (twofold 2).SlotsFit := by decide +kernel
  have hagreeFits : (twofold 1).SlotsFit := by decide +kernel
  have hvalid : sampleConfig.validate = .ok () := by decide +kernel
  have hclash : ∃ first ∈ (twofold 2).entryPoints, ∃ second ∈ (twofold 2).entryPoints,
      first.1.id = second.1.id ∧ first.2.id = second.2.id ∧
        first.2.shape.countSlots ≠ second.2.shape.countSlots := by decide +kernel
  have hagree : ¬ ∃ first ∈ (twofold 1).entryPoints, ∃ second ∈ (twofold 1).entryPoints,
      first.1.id = second.1.id ∧ first.2.id = second.2.id ∧
        first.2.shape.countSlots ≠ second.2.shape.countSlots := by decide +kernel
  refine ⟨hclashFits, hagreeFits, hvalid, ?_, ?_⟩
  · obtain ⟨hfails, hkind, -⟩ := compile_fails_iff (twofold 2) hclashFits hvalid
    obtain ⟨cause, hcause⟩ := hfails.mpr hclash
    exact ⟨cause, hcause, (hkind cause hcause).1⟩
  · obtain ⟨hfails, -⟩ := compile_fails_iff (twofold 1) hagreeFits hvalid
    cases hcompile : (twofold 1).compile sampleConfig with
    | ok compilation => exact ⟨compilation, rfl⟩
    | error cause => exact absurd (hfails.mp ⟨cause, hcompile⟩) hagree

end Program

end DalvikHorn
