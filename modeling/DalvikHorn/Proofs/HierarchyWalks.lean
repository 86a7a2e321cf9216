import DalvikHorn.Proofs.ControlFlow
import DalvikHorn.Proofs.Failures
import DalvikHorn.Proofs.Inheritance

/-!
# What the walks over a class table find

Class tables come from programs as they are: classes may be missing, share an
identifier or inherit from each other in a circle.  On every one of them the
chain of superclasses is the one that its description asks for, subtypes are
what can be reached, and members are found where the chain declares them first:
`walks_are_exact`.

A static field is a fact of `S` under the class that declares it.  Loads and
stores through any class below that one, and the fact of the initial value,
therefore have one key: `usesStatic_compileStaticGet`,
`usesStatic_compileStaticPut` and `usesStatic_fact`.

## Strategy

* **The chain.**  It starts with the class, has no class twice, goes up step by
  step, and no step leads out of it (`superChain_ascends`).  This leaves no
  choice: of two such chains one starts with the other, and a longer one would
  meet a class of the shorter one again (`Ascends.unique`).
* **First declarations.**  A search of the chain gives what `FirstOf` says.
* **Keys.**  `Atom.KeyedBy` is a property of single atoms.  The clauses of loads and
  stores of static fields apply few relations, and `S` only where the handler
  puts it.
-/

namespace DalvikHorn

/-! ## The chain of superclasses -/

namespace ClassTable

variable {table : ClassTable}

/-- A list of classes that goes up from a class, step by step to the superclass, as far as it can:
until there is no superclass, or a class that has been met. -/
structure Ascends (table : ClassTable) (id : ClassId) (chain : List ClassId) : Prop where
  starts : chain.head? = some id
  nodup : chain.Nodup
  steps : chain.IsChain table.Extends
  ends : ∀ last, chain.getLast? = some last → ∀ next, table.Extends last next → next ∈ chain

theorem head?_superChainFrom {met : List ClassId} {fuel : Nat} {id first : ClassId}
    (h : (table.superChainFrom met fuel id).head? = some first) : first = id := by
  cases fuel with
  | zero => cases h
  | succ fuel =>
      rw [superChainFrom] at h
      split at h
      · cases h
      · exact (Option.some.inj h).symm

theorem nodup_superChainFrom (met : List ClassId) (fuel : Nat) (id : ClassId) :
    (table.superChainFrom met fuel id).Nodup ∧
      ∀ other ∈ table.superChainFrom met fuel id, other ∉ met := by
  induction fuel generalizing met id with
  | zero => exact ⟨List.nodup_nil, by simp [superChainFrom]⟩
  | succ fuel ih =>
      rw [superChainFrom]
      split
      · exact ⟨List.nodup_nil, by simp⟩
      · rename_i hnew
        rw [List.contains_iff_mem] at hnew
        split
        · rename_i next _
          obtain ⟨hnodup, hdisjoint⟩ := ih (id :: met) next
          refine ⟨List.nodup_cons.mpr ⟨fun hid => hdisjoint id hid List.mem_cons_self, hnodup⟩, ?_⟩
          refine List.forall_mem_cons.mpr ⟨hnew, fun other hother hmet => ?_⟩
          exact hdisjoint other hother (List.mem_cons_of_mem _ hmet)
        · exact ⟨List.nodup_singleton _, by simpa using hnew⟩

theorem isChain_superChainFrom (met : List ClassId) (fuel : Nat) (id : ClassId) :
    (table.superChainFrom met fuel id).IsChain table.Extends := by
  induction fuel generalizing met id with
  | zero => exact List.isChain_nil
  | succ fuel ih =>
      rw [superChainFrom]
      split
      · exact List.isChain_nil
      · split
        · rename_i next hnext
          refine List.isChain_cons.mpr ⟨fun first hfirst => ?_, ih _ _⟩
          rw [head?_superChainFrom hfirst]
          exact hnext
        · exact List.isChain_singleton _

/-- The chain of superclasses goes up from its class as far as it can. -/
theorem superChain_ascends (id : ClassId) : table.Ascends id (table.superChain id) where
  starts := by simp [superChain, superChainFrom]
  nodup := (nodup_superChainFrom _ _ _).1
  steps := isChain_superChainFrom _ _ _
  ends := by
    intro last hlast next hnext
    have hreach := mem_superChain_iff.mp (List.mem_of_getLast? hlast)
    exact mem_superChain_iff.mpr (hreach.tail hnext)

/-- Of two lists that go up from a class one starts with the other, since a class has one
superclass at most. -/
theorem prefix_or_prefix_of_isChain {first second : List ClassId}
    (hhead : first.head? = second.head?) (hfirst : first.IsChain table.Extends)
    (hsecond : second.IsChain table.Extends) : first <+: second ∨ second <+: first := by
  induction first generalizing second with
  | nil => exact .inl List.nil_prefix
  | cons id rest ih =>
      cases second with
      | nil => cases hhead
      | cons other others =>
          obtain rfl : id = other := Option.some.inj hhead
          rw [List.isChain_cons] at hfirst hsecond
          rw [List.prefix_cons_inj, List.prefix_cons_inj]
          -- the walks stop where the hierarchy does, and go on to the same super class
          cases hrest : rest.head? with
          | none =>
              rw [List.head?_eq_none_iff.mp hrest]
              exact .inl List.nil_prefix
          | some next =>
              cases hothers : others.head? with
              | none =>
                  rw [List.head?_eq_none_iff.mp hothers]
                  exact .inr List.nil_prefix
              | some next' =>
                  have hsame : some next = some next' :=
                    (hfirst.1 next hrest).symm.trans (hsecond.1 next' hothers)
                  exact ih (by rw [hrest, hothers, hsame]) hfirst.2 hsecond.2

/-- A chain that has ended is not a proper start of another one. -/
theorem Ascends.eq_of_prefix {id : ClassId} {shorter longer : List ClassId}
    (hshorter : table.Ascends id shorter) (hlonger : table.Ascends id longer)
    (hstart : shorter <+: longer) : shorter = longer := by
  obtain ⟨more, rfl⟩ := hstart
  cases more with
  | nil => rw [List.append_nil]
  | cons next rest =>
      -- the step to the first class that is left leads back into the shorter chain
      cases hlast : shorter.getLast? with
      | none =>
          have hstarts := hshorter.starts
          rw [List.getLast?_eq_none_iff.mp hlast] at hstarts
          cases hstarts
      | some last =>
          have hstep : table.Extends last next :=
            (List.isChain_append.mp hlonger.steps).2.2 last hlast next rfl
          have hmet := hshorter.ends last hlast next hstep
          exact absurd rfl ((List.nodup_append.mp hlonger.nodup).2.2 next hmet next
            List.mem_cons_self)

/-- There is only one chain that goes up from a class as far as it can. -/
theorem Ascends.unique {id : ClassId} {first second : List ClassId}
    (hfirst : table.Ascends id first) (hsecond : table.Ascends id second) : first = second := by
  rcases prefix_or_prefix_of_isChain (hfirst.starts.trans hsecond.starts.symm) hfirst.steps
    hsecond.steps with hstart | hstart
  · exact hfirst.eq_of_prefix hsecond hstart
  · exact (hsecond.eq_of_prefix hfirst hstart).symm

/-! ## First declarations -/

/-- A class declares a static field. -/
def DeclaresStatic (table : ClassTable) (field : FieldId) (id : ClassId) : Prop :=
  ∃ decl, table.class? id = some decl ∧ ∃ candidate ∈ decl.staticFields, candidate.id = field

/-- A class is the first one of a chain that declares something. -/
def FirstOf (declares : ClassId → Prop) (chain : List ClassId) (target : ClassId) : Prop :=
  ∃ before after, chain = before ++ target :: after ∧ (∀ id ∈ before, ¬ declares id) ∧
    declares target

theorem declaresStatic_iff {field : FieldId} {id : ClassId} :
    table.declaresStatic id field = true ↔ table.DeclaresStatic field id := by
  rw [declaresStatic, DeclaresStatic]
  cases table.class? id <;> simp

theorem declaredShape?_eq_none_iff {method : MethodId} {id : ClassId} :
    table.declaredShape? id method = none ↔ ¬ table.Defines method id := by
  rw [← exists_declaredShape?_iff, ← Option.isSome_iff_exists, Option.not_isSome_iff_eq_none]

/-- The look-up of a method gives the first class of the chain that defines it, with the frame
that it declares there. -/
theorem lookup?_eq_some_iff_firstOf {method : MethodId} {id target : ClassId}
    {shape : FrameShape} :
    table.lookup? id method = some (target, shape) ↔
      FirstOf (table.Defines method) (table.superChain id) target ∧
        table.declaredShape? target method = some shape := by
  rw [lookup?, List.findSome?_eq_some_iff]
  constructor
  · rintro ⟨before, found, after, hchain, hfound, hbefore⟩
    obtain ⟨_, hshape, heq⟩ := Option.map_eq_some_iff.mp hfound
    cases heq
    refine ⟨⟨before, after, hchain, fun other hother => ?_, ?_⟩, hshape⟩
    · exact declaredShape?_eq_none_iff.mp (Option.map_eq_none_iff.mp (hbefore other hother))
    · exact exists_declaredShape?_iff.mp ⟨shape, hshape⟩
  · rintro ⟨⟨before, after, hchain, hbefore, -⟩, hshape⟩
    refine ⟨before, target, after, hchain, by rw [hshape, Option.map_some], fun other hother => ?_⟩
    exact Option.map_eq_none_iff.mpr (declaredShape?_eq_none_iff.mpr (hbefore other hother))

theorem lookup?_eq_none_iff {method : MethodId} {id : ClassId} :
    table.lookup? id method = none ↔ ∀ other ∈ table.superChain id, ¬ table.Defines method other := by
  rw [lookup?, List.findSome?_eq_none_iff]
  exact forall₂_congr fun other _ => Option.map_eq_none_iff.trans declaredShape?_eq_none_iff

/-- The owner of a static field is the first class of the chain that declares it. -/
theorem staticFieldOwner?_eq_some_iff {field : FieldId} {id target : ClassId} :
    table.staticFieldOwner? id field = some target ↔
      FirstOf (table.DeclaresStatic field) (table.superChain id) target := by
  rw [staticFieldOwner?, List.find?_eq_some_iff_append, declaresStatic_iff]
  constructor
  · rintro ⟨hdeclares, before, after, hchain, hbefore⟩
    refine ⟨before, after, hchain, fun other hother => ?_, hdeclares⟩
    rw [← declaresStatic_iff, Bool.not_eq_true, ← Bool.not_eq_true']
    exact hbefore other hother
  · rintro ⟨before, after, hchain, hbefore, hdeclares⟩
    refine ⟨hdeclares, before, after, hchain, fun other hother => ?_⟩
    rw [Bool.not_eq_true', ← Bool.not_eq_true, declaresStatic_iff]
    exact hbefore other hother

theorem staticFieldOwner?_eq_none_iff {field : FieldId} {id : ClassId} :
    table.staticFieldOwner? id field = none ↔
      ∀ other ∈ table.superChain id, ¬ table.DeclaresStatic field other := by
  rw [staticFieldOwner?, List.find?_eq_none]
  exact forall₂_congr fun other _ => not_congr declaresStatic_iff

end ClassTable

/-! ## Keys of static fields -/

/-- An atom that, if it is one of a static field, is one of a given field of a given class. -/
def Atom.KeyedBy (owner : ClassId) (field : FieldId) (atom : Atom) : Prop :=
  atom.relation = GlobalHeap.staticRelation →
    atom.args.take 2 = [.int (.lit owner.toInt), .int (.lit field.toInt)]

/-- Some clauses read or write static fields, and only a given field of a given class. -/
def UsesStatic (owner : ClassId) (field : FieldId) (clauses : List Clause) : Prop :=
  (∃ clause ∈ clauses, ∃ atom ∈ clause.atoms, atom.relation = GlobalHeap.staticRelation) ∧
    ∀ clause ∈ clauses, ∀ atom ∈ clause.atoms, atom.KeyedBy owner field

variable {owner : ClassId} {field : FieldId}

theorem keyedBy_static {value : BvExpr} {high blocked : Formula} :
    (GlobalHeap.static (.lit owner.toInt) (.lit field.toInt) value high blocked).KeyedBy owner
      field :=
  fun _ => rfl

theorem keyedBy_of_relation {atom : Atom} (relation : Relation) (hne : relation ≠ .static)
    (hname : atom.relation = relation.name) : atom.KeyedBy owner field := by
  intro hstatic
  have hsame : relation.name = Relation.static.name := hname.symm.trans hstatic
  exact absurd (Relation.name_injective hsame) hne

theorem keyedBy_pointAtom {position : ProgramPoint} {state : State} :
    (pointAtom position state).KeyedBy owner field :=
  keyedBy_of_relation (.point position) nofun rfl

namespace StepContext

variable {cx : StepContext} {guards : List Formula}

theorem keyedBy_of_mem_derive {head : Atom}
    (hguards : ∀ guard ∈ guards, ∀ atom ∈ guard.atoms, atom.KeyedBy owner field)
    (hhead : head.KeyedBy owner field) :
    ∀ atom ∈ (cx.derive guards head).atoms, atom.KeyedBy owner field := by
  intro atom hatom
  rcases List.mem_append.mp hatom with hbody | hmem
  · obtain ⟨part, hpart, hin⟩ := Formula.mem_atomsList.mp hbody
    rcases List.mem_cons.mp hpart with rfl | hguard
    · rw [List.mem_singleton.mp hin]
      exact keyedBy_pointAtom
    · exact hguards part hguard atom hin
  · rw [List.mem_singleton.mp hmem]
    exact hhead

/-- Conditions over the state apply no relation. -/
theorem keyedBy_of_sorted (hguards : ∀ guard ∈ guards, guard.Sorted cx.width) :
    ∀ guard ∈ guards, ∀ atom ∈ guard.atoms, atom.KeyedBy owner field := by
  intro guard hguard atom hatom
  rw [(hguards guard hguard).atoms_eq_nil] at hatom
  cases hatom

/-- What a lift writes are objects. -/
theorem keyedBy_of_mem_liftIfLocal (r : UInt32) (update : State → Except Error State) :
    Ensures (cx.liftIfLocal r [] update) fun clauses =>
      ∀ clause ∈ clauses, ∀ atom ∈ clause.atoms, atom.KeyedBy owner field := by
  refine .bind (ensures_register r) ?_
  rintro cell ⟨i, rfl⟩
  -- the lift is guarded by the local flag of the register
  have hlocal : ∀ guard ∈ [] ++ [(Cell.register i cx.width).isLocal], guard.Sorted cx.width := by
    simpa using (Cell.sorted_register i).isLocal
  have hflushed : Ensures (flushAll cx.layout cx.width
      (cx.body ([] ++ [(Cell.register i cx.width).isLocal])) cx.pre) fun clauses =>
      ∀ clause ∈ clauses, ∀ atom ∈ clause.atoms, atom.KeyedBy owner field := by
    refine .bind (.mapM_flatten fun site _ => ?_) fun _ hfacts => .pure hfacts
    refine .bind (pre_slot_yields _).result fun header hheader => ?_
    have hguards : ∀ guard ∈ [] ++ [(Cell.register i cx.width).isLocal] ++ [header.free.negate],
        guard.Sorted cx.width :=
      List.forall_mem_append.mpr ⟨hlocal, List.forall_mem_singleton.mpr hheader.free.negate⟩
    dsimp only
    -- a flushed site applies the relation of objects, with fields or without
    split
    · refine fun facts hfacts => (Ensures.mapM ?_ facts hfacts).2
      rintro ⟨⟨_, _⟩, k⟩ -
      refine .skip fun slot => .pure ?_
      exact keyedBy_of_mem_derive (keyedBy_of_sorted hguards)
        (keyedBy_of_relation .object nofun rfl)
    · refine .pure (List.forall_mem_singleton.mpr ?_)
      exact keyedBy_of_mem_derive (keyedBy_of_sorted hguards)
        (keyedBy_of_relation .object nofun rfl)
  refine .bind hflushed fun facts hfacts => .skip fun post => .pure ?_
  refine List.forall_mem_append.mpr ⟨hfacts, List.forall_mem_singleton.mpr ?_⟩
  exact keyedBy_of_mem_derive (keyedBy_of_sorted hlocal) keyedBy_pointAtom

theorem ensures_assign (r : UInt32) (guards : List Formula) (cell : Cell) :
    Ensures (cx.assign r guards cell) fun clauses => ∃ post, clauses = [cx.step guards post] :=
  .skip fun post => .pure ⟨post, rfl⟩

section Handlers

variable {reference : FieldRef} (hreference : cx.fieldReference = .ok reference)
  (howner : cx.oracle.staticFieldOwner reference.classId reference.fieldId = some owner)

include hreference howner

/-- The key of a static field is its owner with the field. -/
theorem staticKey_eq :
    Ensures cx.fieldReference fun found =>
      cx.staticKey found = (.lit owner.toInt, .lit reference.fieldId.toInt) := by
  intro found hfound
  obtain rfl : found = reference := Except.ok.inj (hfound.symm.trans hreference)
  rw [staticKey, howner, Option.getD_some]

/-- A load reads the field under its owner. -/
theorem usesStatic_compileStaticGet :
    Ensures cx.compileStaticGet (UsesStatic owner reference.fieldId) := by
  refine .skip fun destination => .bind (staticKey_eq hreference howner) fun found hkey => ?_
  rw [hkey]
  refine .bind (ensures_assign _ _ _) ?_
  rintro _ ⟨unset, rfl⟩
  refine .bind (ensures_assign _ _ _) ?_
  rintro _ ⟨loaded, rfl⟩
  refine .pure ⟨?_, ?_⟩
  · exact ⟨_, List.mem_append_right _ List.mem_cons_self, _,
      List.mem_append_left _ (List.mem_append_right _ List.mem_cons_self), rfl⟩
  · refine List.forall_mem_append.mpr ⟨List.forall_mem_singleton.mpr ?_,
      List.forall_mem_singleton.mpr ?_⟩
    · exact keyedBy_of_mem_derive (by simp) keyedBy_pointAtom
    · refine keyedBy_of_mem_derive (List.forall_mem_singleton.mpr fun atom hatom => ?_)
        keyedBy_pointAtom
      rw [List.mem_singleton.mp hatom]
      exact keyedBy_static

/-- A store writes the field under its owner. -/
theorem usesStatic_compileStaticPut :
    Ensures cx.compileStaticPut (UsesStatic owner reference.fieldId) := by
  refine .skip fun register => .skip fun source => .bind (staticKey_eq hreference howner)
    fun found hkey => ?_
  rw [hkey]
  have hlift : Ensures (cx.liftIfLocal register [] .ok) fun clauses =>
      ∀ clause ∈ clauses, ∀ atom ∈ clause.atoms, atom.KeyedBy owner reference.fieldId :=
    keyedBy_of_mem_liftIfLocal _ _
  refine .bind hlift fun lifted hlifted => .pure ⟨?_, ?_⟩
  · exact ⟨_, List.mem_cons_of_mem _ List.mem_cons_self, _,
      List.mem_append_right _ List.mem_cons_self, rfl⟩
  · refine List.forall_mem_cons.mpr ⟨keyedBy_of_mem_derive (by simp) keyedBy_pointAtom,
      List.forall_mem_cons.mpr ⟨keyedBy_of_mem_derive (by simp) keyedBy_static, hlifted⟩⟩

end Handlers

end StepContext

/-- The initial value of a static field is a fact under the class that declares it. -/
theorem mem_staticInitialValues_iff {env : Environment} {program : Program} {clause : Clause} :
    clause ∈ env.staticInitialValues program ↔
      ∃ decl ∈ program.classes, ∃ field ∈ decl.staticFields, ∃ value,
        field.initialValue = some value ∧
          clause = .fact (GlobalHeap.static (.lit decl.id.toInt) (.lit field.id.toInt)
            (.ofInt value.toInt env.width) .ff .ff) := by
  simp only [Environment.staticInitialValues, List.mem_flatMap, List.mem_filterMap,
    Option.map_eq_some_iff]
  constructor <;>
  · rintro ⟨decl, hdecl, field, hfield, value, hvalue, rfl⟩
    exact ⟨decl, hdecl, field, hfield, value, hvalue, rfl⟩

theorem usesStatic_fact {value : BvExpr} {high blocked : Formula} :
    UsesStatic owner field
      [.fact (GlobalHeap.static (.lit owner.toInt) (.lit field.toInt) value high blocked)] := by
  refine ⟨⟨_, List.mem_cons_self, _, List.mem_cons_self, rfl⟩, ?_⟩
  refine List.forall_mem_singleton.mpr (List.forall_mem_singleton.mpr keyedBy_static)

/-! ## All walks -/

/-- The walks over a class table find what they are meant to find, on every table: the one chain
that goes up from a class as far as it can, the subtypes that steps to superclasses and then to
interfaces reach, and the first class of the chain that defines a method or declares a static
field.  In a program, loads and stores of a static field through any class whose chain first
declares it at an owner, and the facts of its initial value at that owner, use it under the
identifier of the owner. -/
theorem walks_are_exact :
    (∀ (table : ClassTable) (id : ClassId) (chain : List ClassId),
      table.superChain id = chain ↔ table.Ascends id chain) ∧
    (∀ (table : ClassTable) (candidate ancestor : ClassId),
      table.isSubtype candidate ancestor = true ↔ table.Inherits candidate ancestor) ∧
    (∀ (table : ClassTable) (id : ClassId) (method : MethodId),
      (∀ target shape, table.lookup? id method = some (target, shape) ↔
        ClassTable.FirstOf (table.Defines method) (table.superChain id) target ∧
          table.declaredShape? target method = some shape) ∧
      (table.lookup? id method = none ↔
        ∀ other ∈ table.superChain id, ¬ table.Defines method other)) ∧
    (∀ (table : ClassTable) (id : ClassId) (field : FieldId),
      (∀ target, table.staticFieldOwner? id field = some target ↔
        ClassTable.FirstOf (table.DeclaresStatic field) (table.superChain id) target) ∧
      (table.staticFieldOwner? id field = none ↔
        ∀ other ∈ table.superChain id, ¬ table.DeclaresStatic field other)) ∧
    ∀ (program : Program) (labels : Labels) (cx : StepContext) (reference : FieldRef)
      (owner : ClassId), cx.oracle = program.oracle labels →
      cx.fieldReference = .ok reference →
      ClassTable.FirstOf (program.classTable.DeclaresStatic reference.fieldId)
        (program.classTable.superChain reference.classId) owner →
      (∀ clauses, cx.compileStaticGet = .ok clauses →
        UsesStatic owner reference.fieldId clauses) ∧
      (∀ clauses, cx.compileStaticPut = .ok clauses →
        UsesStatic owner reference.fieldId clauses) ∧
      ∀ decl ∈ program.classes, decl.id = owner → ∀ field ∈ decl.staticFields,
        field.id = reference.fieldId → ∀ value, field.initialValue = some value →
          ∃ clause ∈ cx.env.staticInitialValues program,
            clause.body = [] ∧ UsesStatic owner reference.fieldId [clause] := by
  refine ⟨fun table id chain => ⟨?_, ?_⟩, fun _ _ _ => ClassTable.isSubtype_iff,
    fun _ _ _ => ⟨fun _ _ => ClassTable.lookup?_eq_some_iff_firstOf,
      ClassTable.lookup?_eq_none_iff⟩,
    fun _ _ _ => ⟨fun _ => ClassTable.staticFieldOwner?_eq_some_iff,
      ClassTable.staticFieldOwner?_eq_none_iff⟩, ?_⟩
  · rintro rfl
    exact ClassTable.superChain_ascends id
  · exact (ClassTable.superChain_ascends id).unique
  · intro program labels cx reference owner horacle hreference hfirst
    have howner : cx.oracle.staticFieldOwner reference.classId reference.fieldId = some owner := by
      rw [horacle]
      exact ClassTable.staticFieldOwner?_eq_some_iff.mpr hfirst
    refine ⟨StepContext.usesStatic_compileStaticGet hreference howner,
      StepContext.usesStatic_compileStaticPut hreference howner, ?_⟩
    rintro decl hdecl rfl field hfield hid value hvalue
    refine ⟨_, mem_staticInitialValues_iff.mpr ⟨decl, hdecl, field, hfield, value, hvalue, rfl⟩,
      rfl, ?_⟩
    rw [hid]
    exact usesStatic_fact

/-- A class that inherits from itself through another one and declares a static field. -/
def circularOwner : Class where
  name := "Lb;"
  superClass := some "La;"
  fields := [{ name := "x", type := "I", isStatic := true, initialValue := some 7 }]

/-- The class with the other one. -/
def Program.circular : Program where
  classes := [{ name := "La;", superClass := some "Lb;" }, circularOwner]

/-- A load of the field through the other class. -/
def circularLoad : StepContext where
  env := Program.circular.environment Program.sampleConfig {}
  owner := { name := "La;" }
  method := { name := "get()I", numRegisters := 1, numArguments := 0, isStatic := true }
  instruction := { pc := 0, mnemonic := "sget", registers := [0], reference := some "La;->x:I" }
  nextPc := 2
  allocation := 0

/-- The load and the initial value meet under the class that declares the field. -/
theorem walks_are_exact_circular :
    (∃ clauses, circularLoad.compileStaticGet = .ok clauses ∧
      UsesStatic circularOwner.id (fieldId "x" "I") clauses) ∧
    ∃ clause ∈ circularLoad.env.staticInitialValues .circular,
      clause.body = [] ∧ UsesStatic circularOwner.id (fieldId "x" "I") [clause] := by
  have hreference : circularLoad.fieldReference = .ok ⟨"La;", "x", "I"⟩ := by decide +kernel
  have hfirst : ClassTable.FirstOf (Program.circular.classTable.DeclaresStatic (fieldId "x" "I"))
      (Program.circular.classTable.superChain (textHash "La;")) circularOwner.id :=
    ClassTable.staticFieldOwner?_eq_some_iff.mp (by decide +kernel)
  have hfield : ⟨"x", "I", true, some 7⟩ ∈ circularOwner.staticFields := by decide +kernel
  have hcompiles : circularLoad.compileStaticGet.toOption.isSome = true := by decide +kernel
  obtain ⟨hget, -, hinitial⟩ := walks_are_exact.2.2.2.2 .circular {} circularLoad _ _ rfl
    hreference hfirst
  refine ⟨?_, hinitial _ (List.mem_cons_of_mem _ List.mem_cons_self) rfl _ hfield rfl 7 rfl⟩
  cases hclauses : circularLoad.compileStaticGet with
  | error _ =>
      rw [hclauses] at hcompiles
      cases hcompiles
  | ok clauses => exact ⟨clauses, rfl, hget clauses hclauses⟩

end DalvikHorn
