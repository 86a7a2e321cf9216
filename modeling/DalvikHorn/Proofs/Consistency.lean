import DalvikHorn.Proofs.Compiled
import Mathlib.Data.List.SplitBy

/-!
# Consistency of compiled programs

A program whose shapes agree compiles under every valid configuration.  In what is
stored every relation has one signature and every variable one sort, although
instructions, calls, library rules and facts apply relations on their own; so the
script of the store can always be written.
-/

namespace DalvikHorn

/-! ## Scripts -/

section Scripts

variable {α : Type} [DecidableEq α]

/-- The first element of a list is never dropped, only its repetitions are. -/
theorem dropRepeats_cons (x : α) (rest : List α) :
    ∃ tail, dropRepeats (x :: rest) = x :: tail := by
  induction rest with
  | nil => exact ⟨[], rfl⟩
  | cons y rest ih =>
      rw [dropRepeats]
      split
      · rename_i heq
        exact heq ▸ ih
      · exact ⟨_, rfl⟩

end Scripts

/-- A list in which a name has one sort has no repeated name once repetitions are dropped. -/
theorem firstRepeatedName?_dropRepeats {occurrences : List (String × TermSort)}
    (h : ∀ first ∈ occurrences, ∀ second ∈ occurrences, first.1 = second.1 → first = second) :
    firstRepeatedName? (dropRepeats occurrences) = none := by
  fun_induction dropRepeats occurrences with
  | case1 => rfl
  | case2 => rfl
  | case3 first rest ih =>
      exact ih fun one hone other hother =>
        h one (List.mem_cons_of_mem _ hone) other (List.mem_cons_of_mem _ hother)
  | case4 first second rest hne ih =>
      obtain ⟨tail, htail⟩ := dropRepeats_cons second rest
      have hnames : first.1 ≠ second.1 := fun hname =>
        hne (h first List.mem_cons_self second (List.mem_cons_of_mem _ List.mem_cons_self) hname)
      have hrest := ih fun one hone other hother =>
        h one (List.mem_cons_of_mem _ hone) other (List.mem_cons_of_mem _ hother)
      rw [htail] at hrest ⊢
      rw [firstRepeatedName?, if_neg hnames]
      exact hrest

theorem distinctVariables_ok {width : Nat} {occurrences : List (String × TermSort)}
    (h : Names.Respected width occurrences) :
    ∃ distinct, distinctVariables occurrences = .ok distinct := by
  have hnone : firstRepeatedName?
      (dropRepeats (occurrences.mergeSort fun left right => textLe left.1 right.1)) = none := by
    refine firstRepeatedName?_dropRepeats fun first hfirst second hsecond hname => ?_
    have hfirst' := (h first (List.mem_mergeSort.mp hfirst)).sort_eq
    have hsecond' := (h second (List.mem_mergeSort.mp hsecond)).sort_eq
    exact Prod.ext hname (by rw [hfirst', hsecond', hname])
  unfold distinctVariables
  dsimp only
  rw [hnone]
  exact ⟨_, rfl⟩

/-- A property that folded disjunctions inherit from their parts passes from the conditions of
queries to those of their groups. -/
theorem groupQueries_of_conditions {property : Formula → Prop}
    (hany : ∀ parts, (∀ part ∈ parts, property part) → property (Formula.any parts))
    {queries : List Query} (h : ∀ query ∈ queries, property query.condition) (merge : Bool) :
    ∀ group ∈ groupQueries merge queries, property group.condition := by
  unfold groupQueries
  dsimp only
  intro group hgroup
  split at hgroup
  · obtain ⟨run, hrun, rfl⟩ := List.mem_map.mp hgroup
    refine hany _ fun part hpart => ?_
    obtain ⟨query, hquery, rfl⟩ := List.mem_map.mp hpart
    have hmem : query ∈ ((queries.mergeSort Query.le).splitBy (·.key == ·.key)).flatten :=
      List.mem_flatten.mpr ⟨run, hrun, hquery⟩
    rw [List.flatten_splitBy] at hmem
    exact h query (List.mem_mergeSort.mp hmem)
  · obtain ⟨query, hquery, rfl⟩ := List.mem_map.mp hgroup
    exact h query (List.mem_mergeSort.mp hquery)

/-- Joining the queries of a call keeps their conditions admissible. -/
theorem admissible_groupQueries {program : Program} {width : Nat} {queries : List Query}
    (h : ∀ query ∈ queries, query.condition.Admissible program width) (merge : Bool) :
    ∀ group ∈ groupQueries merge queries, group.condition.Admissible program width :=
  groupQueries_of_conditions (fun _ hparts => Formula.admissible_any hparts) h merge

namespace Store

/-- All relation applications of a store. -/
def applications (store : Store) : List Atom :=
  store.clauses.flatMap Clause.applications ++
    store.queries.flatMap (·.condition.applications)

/-- All variables of a store with the sorts that they are used at. -/
def vars (store : Store) : List (String × TermSort) :=
  store.clauses.flatMap Clause.vars ++ store.queries.flatMap (·.condition.vars)

variable {program : Program} {width : Nat} {store : Store}

theorem Admissible.relates (h : store.Admissible program width) :
    ∀ atom ∈ store.applications, program.Relates width atom := by
  intro atom hatom
  rcases List.mem_append.mp hatom with hmem | hmem
  · obtain ⟨clause, hclause, hmem⟩ := List.mem_flatMap.mp hmem
    exact (h.clauses clause hclause).applications atom hmem
  · obtain ⟨query, hquery, hmem⟩ := List.mem_flatMap.mp hmem
    exact (h.queries query hquery).applications atom hmem

theorem Admissible.respected (h : store.Admissible program width) :
    ∀ v ∈ store.vars, v.2 = Names.sort width v.1 := by
  intro v hv
  rcases List.mem_append.mp hv with hmem | hmem
  · obtain ⟨clause, hclause, hmem⟩ := List.mem_flatMap.mp hmem
    exact ((h.clauses clause hclause).vars v hmem).sort_eq
  · obtain ⟨query, hquery, hmem⟩ := List.mem_flatMap.mp hmem
    exact ((h.queries query hquery).vars v hmem).sort_eq

/-- The script of an admissible store can be written. -/
theorem Admissible.render_ok (h : store.Admissible program width) (merge verbose : Bool) :
    ∃ text, store.render merge verbose = .ok text := by
  have hvars : Names.Respected width (store.clauses.flatMap Clause.vars ++
      (groupQueries merge store.queries).flatMap (·.condition.vars)) := by
    intro v hv
    rcases List.mem_append.mp hv with hmem | hmem
    · obtain ⟨clause, hclause, hmem⟩ := List.mem_flatMap.mp hmem
      exact (h.clauses clause hclause).vars v hmem
    · obtain ⟨group, hgroup, hmem⟩ := List.mem_flatMap.mp hmem
      exact (admissible_groupQueries h.queries merge group hgroup).vars v hmem
  obtain ⟨distinct, hdistinct⟩ := distinctVariables_ok hvars
  unfold render script
  dsimp only
  rw [hdistinct]
  exact ⟨_, rfl⟩

end Store

/-! ## Arities -/

namespace Program

variable {program : Program} {width : Nat}

theorem Relates.signature_of_name {atom : Atom} (h : program.Relates width atom)
    {relation : Relation} (hname : atom.relation = relation.name) :
    program.Signature width atom.signature relation := by
  obtain ⟨other, hother, hsignature⟩ := h
  have hsame : other = relation := Relation.name_injective (by rw [← hother, hname])
  exact hsame ▸ hsignature

/-- An atom has one column for each sort of its signature. -/
theorem Relates.arity_eq {atom : Atom} (h : program.Relates width atom) {relation : Relation}
    (hname : atom.relation = relation.name) {sorts : List TermSort}
    (hsorts : program.Signature width atom.signature relation → atom.signature = sorts) :
    atom.arity = sorts.length := by
  rw [← hsorts (h.signature_of_name hname)]
  simp [Atom.arity, Atom.signature]

theorem Relates.pointArity_eq (hshapes : program.ShapesAgree) {owner : Class} {method : Method}
    (hmem : (owner, method) ∈ program.methods) (hshape : method.shape.WellFormed) {atom : Atom}
    (h : program.Relates width atom) {pc : UInt32}
    (hname : atom.relation = ProgramPoint.relationName ⟨owner.id, method.id, pc⟩) :
    atom.arity = method.shape.pointArity program.layout.size := by
  have hpoint : atom.relation = (Relation.point ⟨owner.id, method.id, pc⟩).name := hname
  rw [h.arity_eq hpoint (fun ⟨_, hframe, hsorts⟩ =>
    hframe.unique hshapes (frame_of_mem hmem hshape) ▸ hsorts)]
  simp [FrameShape.pointArity]

theorem Relates.exitArity_eq (hshapes : program.ShapesAgree) {owner : Class} {method : Method}
    (hmem : (owner, method) ∈ program.methods) (hshape : method.shape.WellFormed) {atom : Atom}
    (h : program.Relates width atom) (hname : atom.relation = exitRelationName owner.id method.id) :
    atom.arity = method.shape.exitArity program.layout.size := by
  have hexit : atom.relation = (Relation.exit owner.id method.id).name := hname
  rw [h.arity_eq hexit (fun ⟨_, hframe, hsorts⟩ =>
    hframe.unique hshapes (frame_of_mem hmem hshape) ▸ hsorts)]
  simp [FrameShape.exitArity]

/-- The relations of the global heap have six columns for objects and five otherwise. -/
theorem Relates.heapArity_eq {atom : Atom} (h : program.Relates width atom) :
    (atom.relation = GlobalHeap.objectRelation → atom.arity = 6) ∧
      (atom.relation = GlobalHeap.extraRelation → atom.arity = 5) ∧
      (atom.relation = GlobalHeap.launchRelation → atom.arity = 5) ∧
      (atom.relation = GlobalHeap.staticRelation → atom.arity = 5) := by
  have hcount : ∀ relation : Relation, ∀ sorts : List TermSort,
      (program.Signature width atom.signature relation → atom.signature = sorts) →
        atom.relation = relation.name → atom.arity = sorts.length :=
    fun relation sorts hsorts hname => h.arity_eq hname hsorts
  exact ⟨hcount .object _ id, hcount .extra _ id, hcount .launch _ id, hcount .static _ id⟩

/-- Every program whose shapes agree and whose slots can be counted compiles under every valid
configuration, and its store is consistent: exactly the methods whose arguments do not fit are
skipped, relations have one signature each, variables have one sort each, and the script can be
written.  The frame of a point relation has as many slots as are counted in words. -/
theorem compile_consistent {config : Config} (hshapes : program.ShapesAgree)
    (hslots : program.SlotsFit) (hvalid : config.validate = .ok ()) :
    (∀ entry ∈ program.methods, entry.2.shape.countSlots.toNat = entry.2.shape.slotCount) ∧
    ∃ compilation, program.compile config = .ok compilation ∧
      compilation.report.methodsSkipped =
        program.methods.countP (fun entry => !decide entry.2.shape.WellFormed) ∧
      (∀ first ∈ compilation.store.applications, ∀ second ∈ compilation.store.applications,
        first.relation = second.relation → first.signature = second.signature) ∧
      (∀ entry ∈ program.methods, entry.2.shape.WellFormed →
        ∀ atom ∈ compilation.store.applications,
          (∀ pc, atom.relation = ProgramPoint.relationName ⟨entry.1.id, entry.2.id, pc⟩ →
            atom.arity = entry.2.shape.pointArity program.layout.size) ∧
          (atom.relation = exitRelationName entry.1.id entry.2.id →
            atom.arity = entry.2.shape.exitArity program.layout.size)) ∧
      (∀ atom ∈ compilation.store.applications,
        (atom.relation = GlobalHeap.objectRelation → atom.arity = 6) ∧
        (atom.relation = GlobalHeap.extraRelation → atom.arity = 5) ∧
        (atom.relation = GlobalHeap.launchRelation → atom.arity = 5) ∧
        (atom.relation = GlobalHeap.staticRelation → atom.arity = 5)) ∧
      (∀ first ∈ compilation.store.vars, ∀ second ∈ compilation.store.vars,
        first.1 = second.1 → first.2 = second.2) ∧
      ∀ merge verbose, ∃ text, compilation.store.render merge verbose = .ok text := by
  obtain ⟨labels, compilation, hcompile, hadmissible, -, -, hskipped⟩ :=
    compile_eq hshapes hvalid
  refine ⟨fun entry hentry => FrameShape.toNat_countSlots (hslots entry hentry),
    compilation, hcompile, hskipped, ?_, ?_, ?_, ?_, hadmissible.render_ok⟩
  · intro first hfirst second hsecond hname
    exact (hadmissible.relates first hfirst).signature_eq hshapes
      (hadmissible.relates second hsecond) hname
  · rintro ⟨owner, method⟩ hmem hshape atom hatom
    have hrelates := hadmissible.relates atom hatom
    exact ⟨fun pc hname => hrelates.pointArity_eq hshapes hmem hshape hname,
      fun hname => hrelates.exitArity_eq hshapes hmem hshape hname⟩
  · exact fun atom hatom => (hadmissible.relates atom hatom).heapArity_eq
  · intro first hfirst second hsecond hname
    rw [hadmissible.respected first hfirst, hadmissible.respected second hsecond, hname]

/-- A program with a call, an allocation, and a method whose arguments do not fit. -/
def sample : Program where
  classes :=
    [{ name := "La;"
       methods :=
         [{ name := "start()V", numRegisters := 2, numArguments := 0, isStatic := true,
            entryPoint := true
            instructions :=
              [{ pc := 0, mnemonic := "new-instance", registers := [0], reference := some "Lb;" },
                { pc := 2, mnemonic := "invoke-static", registers := [0],
                  reference := some "Lb;->keep(Lb;)Lb;" },
                { pc := 5, mnemonic := "move-result-object", registers := [1] },
                { pc := 6, mnemonic := "return-void" }] }] },
      { name := "Lb;"
        fields := [{ name := "next", type := "Lb;" }]
        methods :=
          [{ name := "keep(Lb;)Lb;", numRegisters := 1, numArguments := 1, isStatic := true
             instructions := [{ pc := 0, mnemonic := "return-object", registers := [0] }] },
            { name := "broken(I)V", numRegisters := 0, numArguments := 1, isStatic := true }] }]

/-- The preset that derives reachability, with one source and one sink. -/
def sampleConfig : Config :=
  { Config.ofPreset .precise with
    bitvectorSize := 32, sources := ["Lb;->keep(Lb;)Lb;"], sinks := ["Lc;->send(I)V"] }

theorem compile_consistent_sample :
    sample.ShapesAgree ∧ sample.SlotsFit ∧ sampleConfig.validate = .ok () ∧
      ∃ compilation, sample.compile sampleConfig = .ok compilation ∧
        compilation.report.methodsSkipped = 1 ∧
        ∃ text, compilation.store.render true true = .ok text := by
  have hshapes : sample.ShapesAgree := by decide +kernel
  have hslots : sample.SlotsFit := by decide +kernel
  have hvalid : sampleConfig.validate = .ok () := by decide +kernel
  obtain ⟨-, compilation, hcompile, hskipped, -, -, -, -, hrender⟩ :=
    compile_consistent hshapes hslots hvalid
  have hcount : sample.methods.countP (fun entry => !decide entry.2.shape.WellFormed) = 1 := by
    decide
  exact ⟨hshapes, hslots, hvalid, compilation, hcompile, hskipped.trans hcount, hrender true true⟩

end Program

end DalvikHorn
