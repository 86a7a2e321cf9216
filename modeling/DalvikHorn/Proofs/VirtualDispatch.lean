import DalvikHorn.Dispatch.Oracle
import DalvikHorn.Proofs.Inheritance

/-!
# Virtual dispatch

A virtual call names a class and a method.  Which code it runs depends on the object that
it is made on: on the class of the object, from which the search for the method goes
upwards.  A program answers with a list of implementations, each with the objects that it
is run for.  The answer has neither more nor less than the classes of the program ask for:
`virtual_dispatch_exact`.

## Strategy

* **Receivers.**  The objects of a type are those that the program allocates for it and, for
  a class in which the analysis starts, one more (`Program.Receives`).
* **Grouping.**  All subtypes with the same nearest definition are served by one
  implementation.  They agree on its frame, since the frame is that of the class which
  defines the method (`mem_nearestDefinitions`).
* **Order.**  Both the implementations and their receivers come out of `ascending`, which
  keeps the members of a list and sorts them strictly (`mem_ascending`,
  `pairwise_ascending`).
-/

namespace DalvikHorn

/-! ## Ascending lists -/

theorem mem_insertAscending {id other : Int32} {ids : List Int32} :
    other ∈ insertAscending id ids ↔ other = id ∨ other ∈ ids := by
  induction ids with
  | nil => simp [insertAscending]
  | cons first rest ih =>
      unfold insertAscending
      split
      · exact List.mem_cons
      · split
        · rename_i heq
          simp [heq]
        · rw [List.mem_cons, List.mem_cons, ih]
          exact or_left_comm

theorem pairwise_insertAscending {ids : List Int32} (h : ids.Pairwise (· < ·)) (id : Int32) :
    (insertAscending id ids).Pairwise (· < ·) := by
  induction ids with
  | nil => exact List.pairwise_singleton _ _
  | cons first rest ih =>
      obtain ⟨hfirst, hrest⟩ := List.pairwise_cons.mp h
      unfold insertAscending
      split
      · rename_i hlt
        refine List.pairwise_cons.mpr ⟨fun other hother => ?_, h⟩
        rcases List.mem_cons.mp hother with rfl | hmem
        · exact hlt
        · exact Int32.lt_trans hlt (hfirst other hmem)
      · rename_i hge
        split
        · exact h
        · rename_i hne
          refine List.pairwise_cons.mpr ⟨fun other hother => ?_, ih hrest⟩
          rcases mem_insertAscending.mp hother with rfl | hmem
          · exact Int32.lt_of_le_of_ne (Int32.not_lt.mp hge) (Ne.symm hne)
          · exact hfirst other hmem

@[simp] theorem mem_ascending {id : Int32} {ids : List Int32} : id ∈ ascending ids ↔ id ∈ ids := by
  induction ids with
  | nil => rfl
  | cons first rest ih =>
      rw [ascending, List.foldr_cons, mem_insertAscending, List.mem_cons]
      exact or_congr_right ih

theorem pairwise_ascending (ids : List Int32) : (ascending ids).Pairwise (· < ·) := by
  induction ids with
  | nil => exact List.Pairwise.nil
  | cons first rest ih => exact pairwise_insertAscending ih first

/-! ## Implementations of a class table -/

namespace ClassTable

variable (table : ClassTable) (owner : ClassId) (method : MethodId)

/-- The receivers for which a call runs the method of a class. -/
def targetReceivers (target : ClassId) : List InstanceId :=
  ascending (((table.nearestDefinitions owner method).filter (·.1 == target)).flatMap (·.2.2))

/-- The implementation that a class contributes to a call. -/
def implementation? (target : ClassId) : Option Implementation :=
  match (table.nearestDefinitions owner method).filter (·.1 == target) with
  | (_, shape, _) :: _ =>
      if (table.targetReceivers owner method target).isEmpty then none
      else some { owner := target, method := method, shape := shape,
                  receivers := table.targetReceivers owner method target }
  | [] => none

/-- The implementations of a call; a call that has none is not resolved. -/
def implementations : List Implementation :=
  (ascending ((table.nearestDefinitions owner method).map (·.1))).filterMap
    (table.implementation? owner method)

theorem resolveVirtual_eq :
    table.resolveVirtual owner method =
      if (table.implementations owner method).isEmpty then none
      else some (table.implementations owner method) :=
  rfl

variable {table owner method}

theorem mem_nearestDefinitions {target : ClassId} {shape : FrameShape}
    {receivers : List InstanceId} :
    (target, shape, receivers) ∈ table.nearestDefinitions owner method ↔
      ∃ subtype ∈ table.classes.map Prod.fst, table.Inherits subtype owner ∧
        table.NearestDefinition method subtype target ∧
        table.declaredShape? target method = some shape ∧
        receivers = table.receiversOf subtype := by
  unfold nearestDefinitions
  rw [List.mem_filterMap]
  constructor
  · rintro ⟨⟨subtype, decl⟩, hmem, hfound⟩
    dsimp only at hfound
    split at hfound
    · rename_i hsubtype
      obtain ⟨⟨nearest, own⟩, hlookup, heq⟩ := Option.map_eq_some_iff.mp hfound
      cases heq
      obtain ⟨hnearest, hshape⟩ := lookup?_eq_some_iff.mp hlookup
      exact ⟨subtype, List.mem_map_of_mem hmem, isSubtype_iff.mp hsubtype, hnearest, hshape, rfl⟩
    · cases hfound
  · rintro ⟨subtype, hmem, hinherits, hnearest, hshape, rfl⟩
    obtain ⟨⟨_, decl⟩, hentry, rfl⟩ := List.mem_map.mp hmem
    refine ⟨_, hentry, ?_⟩
    dsimp only
    rw [if_pos (isSubtype_iff.mpr hinherits), lookup?_eq_some_iff.mpr ⟨hnearest, hshape⟩]
    rfl

/-- An object is a receiver for the method of a class when it is one of a subtype whose nearest
definition is in that class. -/
theorem mem_targetReceivers {target : ClassId} {id : InstanceId} :
    id ∈ table.targetReceivers owner method target ↔
      ∃ subtype ∈ table.classes.map Prod.fst, table.Inherits subtype owner ∧
        table.NearestDefinition method subtype target ∧ id ∈ table.receiversOf subtype := by
  rw [targetReceivers, mem_ascending, List.mem_flatMap]
  constructor
  · rintro ⟨⟨found, shape, receivers⟩, hfiltered, hid⟩
    obtain ⟨hmem, htarget⟩ := List.mem_filter.mp hfiltered
    obtain rfl : found = target := eq_of_beq htarget
    obtain ⟨subtype, hknown, hinherits, hnearest, -, rfl⟩ := mem_nearestDefinitions.mp hmem
    exact ⟨subtype, hknown, hinherits, hnearest, hid⟩
  · rintro ⟨subtype, hknown, hinherits, hnearest, hid⟩
    obtain ⟨shape, hshape⟩ := exists_declaredShape?_iff.mpr hnearest.reaches.2
    refine ⟨(target, shape, table.receiversOf subtype), List.mem_filter.mpr ⟨?_, by simp⟩, hid⟩
    exact mem_nearestDefinitions.mpr ⟨subtype, hknown, hinherits, hnearest, hshape, rfl⟩

/-- A class contributes an implementation when it has a receiver, and the frame is the one that it
declares. -/
theorem implementation?_eq_some_iff {target : ClassId} {implementation : Implementation} :
    table.implementation? owner method target = some implementation ↔
      table.targetReceivers owner method target ≠ [] ∧
        implementation.owner = target ∧ implementation.method = method ∧
        implementation.receivers = table.targetReceivers owner method target ∧
        table.declaredShape? target method = some implementation.shape := by
  unfold implementation?
  -- the definition is looked up among those found above the receivers
  cases hown : (table.nearestDefinitions owner method).filter (·.1 == target) with
  | nil =>
      refine ⟨nofun, fun h => absurd ?_ h.1⟩
      rw [targetReceivers, hown]
      rfl
  | cons first rest =>
      obtain ⟨found, shape, receivers⟩ := first
      -- the shape found there is the declared one
      have hshape : table.declaredShape? target method = some shape := by
        have hmem := List.mem_filter.mp (hown ▸ List.mem_cons_self :
          (found, shape, receivers) ∈
            (table.nearestDefinitions owner method).filter (·.1 == target))
        cases eq_of_beq hmem.2
        obtain ⟨_, -, -, -, hshape, -⟩ := mem_nearestDefinitions.mp hmem.1
        exact hshape
      dsimp only
      rw [← List.isEmpty_eq_false_iff]
      -- a target without receivers is no target of the call
      cases hempty : (table.targetReceivers owner method target).isEmpty with
      | true => simp
      | false =>
          rw [if_neg (by simp), Option.some_inj]
          constructor
          · rintro rfl
            exact ⟨rfl, rfl, rfl, rfl, hshape⟩
          · rintro ⟨-, rfl, rfl, hreceivers, hdeclared⟩
            cases Option.some.inj (hshape.symm.trans hdeclared)
            rw [← hreceivers]

theorem owner_of_implementation? {target : ClassId} {implementation : Implementation}
    (h : table.implementation? owner method target = some implementation) :
    implementation.owner = target := by
  rw [implementation?_eq_some_iff] at h
  exact h.2.1

theorem mem_implementations {implementation : Implementation} :
    implementation ∈ table.implementations owner method ↔
      table.implementation? owner method implementation.owner = some implementation := by
  rw [implementations, List.mem_filterMap]
  constructor
  · rintro ⟨target, -, hfound⟩
    rwa [owner_of_implementation? hfound]
  · intro hfound
    refine ⟨implementation.owner, mem_ascending.mpr (List.mem_map.mpr ?_), hfound⟩
    rw [implementation?_eq_some_iff] at hfound
    obtain ⟨id, hid⟩ := List.exists_mem_of_ne_nil _ hfound.1
    obtain ⟨subtype, hknown, hinherits, hnearest, -⟩ := mem_targetReceivers.mp hid
    obtain ⟨shape, hshape⟩ := exists_declaredShape?_iff.mpr hnearest.reaches.2
    exact ⟨_, mem_nearestDefinitions.mpr ⟨subtype, hknown, hinherits, hnearest, hshape, rfl⟩, rfl⟩

theorem pairwise_implementations :
    (table.implementations owner method).Pairwise fun first second =>
      first.owner < second.owner := by
  refine (pairwise_ascending _).filterMap _ fun first second hlt own hown other hother => ?_
  rw [owner_of_implementation? hown, owner_of_implementation? hother]
  exact hlt

/-- There is one implementation for each class that is the nearest definition for a receiver. -/
theorem exists_implementation_iff {target : ClassId} :
    (∃ implementation ∈ table.implementations owner method, implementation.owner = target) ↔
      ∃ id, id ∈ table.targetReceivers owner method target := by
  constructor
  · rintro ⟨implementation, hmem, rfl⟩
    rw [mem_implementations, implementation?_eq_some_iff] at hmem
    exact List.exists_mem_of_ne_nil _ hmem.1
  · rintro ⟨id, hid⟩
    obtain ⟨_, -, -, hnearest, -⟩ := mem_targetReceivers.mp hid
    obtain ⟨shape, hshape⟩ := exists_declaredShape?_iff.mpr hnearest.reaches.2
    let implementation : Implementation :=
      { owner := target, method := method, shape := shape,
        receivers := table.targetReceivers owner method target }
    refine ⟨implementation, ?_, rfl⟩
    rw [mem_implementations, implementation?_eq_some_iff]
    exact ⟨List.ne_nil_of_mem hid, rfl, rfl, rfl, hshape⟩

theorem resolveVirtual_eq_some_iff {found : List Implementation} :
    table.resolveVirtual owner method = some found ↔
      found = table.implementations owner method ∧ found ≠ [] := by
  rw [resolveVirtual_eq]
  split
  · rename_i hempty
    refine ⟨nofun, ?_⟩
    rintro ⟨rfl, hne⟩
    exact absurd (List.isEmpty_iff.mp hempty) hne
  · rename_i hne
    rw [Option.some_inj]
    constructor
    · rintro rfl
      exact ⟨rfl, fun hnil => hne (List.isEmpty_iff.mpr hnil)⟩
    · rintro ⟨rfl, -⟩
      rfl

theorem resolveVirtual_eq_none_iff :
    table.resolveVirtual owner method = none ↔ table.implementations owner method = [] := by
  rw [resolveVirtual_eq]
  split <;> simp_all

/-- Every implementation of a resolved call is a method of the signature that the call names, has
a receiver, and has the frame that its class declares. -/
theorem of_mem_resolveVirtual {found : List Implementation}
    (hfound : table.resolveVirtual owner method = some found) {implementation : Implementation}
    (hmem : implementation ∈ found) :
    implementation.method = method ∧ implementation.receivers ≠ [] ∧
      table.declaredShape? implementation.owner method = some implementation.shape := by
  obtain ⟨rfl, -⟩ := resolveVirtual_eq_some_iff.mp hfound
  rw [mem_implementations, implementation?_eq_some_iff] at hmem
  obtain ⟨hne, -, hmethod, hreceivers, hshape⟩ := hmem
  exact ⟨hmethod, hreceivers ▸ hne, hshape⟩

end ClassTable

/-! ## Receivers of a program -/

namespace Program

variable (program : Program)

/-- An object is allocated for a type, or it is the one that the analysis starts with in a class
that has an entry point. -/
def Receives (type : ClassId) (id : InstanceId) : Prop :=
  (∃ entry ∈ program.methods, ∃ instruction ∈ entry.2.instructions,
    instruction.opcode = .newInstance ∧ ∃ typeName, instruction.reference = some typeName ∧
      textHash typeName = type ∧ siteHash entry.1.id entry.2.id instruction.pc = id) ∨
  ∃ decl, program.classTable.class? type = some decl ∧ decl.isEntryClass ∧
    siteHash type 0 0 = id

/-- No object is a receiver of two types. -/
def DistinctReceivers : Prop :=
  ∀ first second id, program.Receives first id → program.Receives second id → first = second

/-- A call of a method of a class runs the code of a class for the objects of a type: the type
inherits from the class that the call names, and the nearest definition is the target. -/
structure Dispatches (owner : ClassId) (method : MethodId) (subtype target : ClassId) : Prop where
  known : ∃ decl ∈ program.classes, decl.id = subtype
  inherits : program.classTable.Inherits subtype owner
  nearest : program.classTable.NearestDefinition method subtype target

/-- An implementation is listed with what a call needs to know about it. -/
structure Implements (owner : ClassId) (method : MethodId) (implementation : Implementation) :
    Prop where
  method_eq : implementation.method = method
  ascending : implementation.receivers.Pairwise (· < ·)
  receivers : ∀ id, id ∈ implementation.receivers ↔
    ∃ subtype, program.Dispatches owner method subtype implementation.owner ∧
      program.Receives subtype id
  shape : ∃ decl, program.classTable.class? implementation.owner = some decl ∧
    ∃ member ∈ decl.methods, member.id = method ∧ member.shape.WellFormed ∧
      implementation.shape = member.shape

variable {program} {owner : ClassId} {method : MethodId}

theorem mem_allocations {type : ClassId} {id : InstanceId} :
    (type, id) ∈ program.allocations ↔
      ∃ entry ∈ program.methods, ∃ instruction ∈ entry.2.instructions,
        instruction.opcode = .newInstance ∧ ∃ typeName, instruction.reference = some typeName ∧
          textHash typeName = type ∧ siteHash entry.1.id entry.2.id instruction.pc = id := by
  unfold allocations
  rw [List.mem_flatMap]
  refine exists_congr fun entry => and_congr_right fun _ => ?_
  rw [List.mem_filterMap]
  refine exists_congr fun instruction => and_congr_right fun _ => ?_
  by_cases hopcode : instruction.opcode = .newInstance
  · simp [hopcode, Option.map_eq_some_iff]
  · simp [hopcode]

theorem mem_receiversOf {type : ClassId} {id : InstanceId} :
    id ∈ program.classTable.receiversOf type ↔ program.Receives type id := by
  have hallocated : id ∈ program.classTable.allocationsOf type ↔
      (type, id) ∈ program.allocations := by
    simp [ClassTable.allocationsOf, classTable]
  have hstart : id ∈ (if (program.classTable.class? type).any (·.isEntryClass) then
        [siteHash type 0 0] else []) ↔
      ∃ decl, program.classTable.class? type = some decl ∧ decl.isEntryClass ∧
        siteHash type 0 0 = id := by
    cases program.classTable.class? type with
    | none => simp
    | some decl =>
        rw [Option.any_some]
        cases hentry : decl.isEntryClass with
        | false => simp [hentry]
        | true => simpa [hentry] using eq_comm
  rw [ClassTable.receiversOf, mem_ascending, List.mem_append, hallocated, mem_allocations, hstart]
  rfl

theorem mem_classTable_ids {id : ClassId} :
    id ∈ program.classTable.classes.map Prod.fst ↔ ∃ decl ∈ program.classes, decl.id = id := by
  simp [classTable]

/-- All receivers of a program with their types. -/
def receivers (program : Program) : List (ClassId × InstanceId) :=
  (program.allocations.map Prod.fst ++ program.classTable.classes.map Prod.fst).flatMap fun type =>
    (program.classTable.receiversOf type).map (type, ·)

theorem mem_receivers {type : ClassId} {id : InstanceId} :
    (type, id) ∈ program.receivers ↔ program.Receives type id := by
  constructor
  · intro h
    obtain ⟨other, -, hmem⟩ := List.mem_flatMap.mp h
    obtain ⟨_, hid, heq⟩ := List.mem_map.mp hmem
    cases heq
    exact mem_receiversOf.mp hid
  · intro h
    refine List.mem_flatMap.mpr ⟨type, ?_, List.mem_map.mpr ⟨id, mem_receiversOf.mpr h, rfl⟩⟩
    rcases h with hallocated | ⟨decl, hdecl, -⟩
    · exact List.mem_append_left _ (List.mem_map_of_mem (mem_allocations.mpr hallocated))
    · exact List.mem_append_right _ (ClassTable.mem_ids_of_class? hdecl)

instance : Decidable program.DistinctReceivers :=
  decidable_of_iff (program.receivers.all fun first => program.receivers.all fun second =>
      first.2 != second.2 || first.1 == second.1) <| by
    simp only [List.all_eq_true, Bool.or_eq_true, bne_iff_ne, beq_iff_eq]
    constructor
    · intro h first second id hfirst hsecond
      exact (h (first, id) (mem_receivers.mpr hfirst) (second, id)
        (mem_receivers.mpr hsecond)).resolve_left (not_not_intro rfl)
    · intro h first hfirst second hsecond
      refine or_iff_not_imp_left.mpr fun heq => ?_
      rw [not_not] at heq
      exact h first.1 second.1 first.2 (mem_receivers.mp hfirst)
        (heq ▸ mem_receivers.mp hsecond)

/-- The receivers for the method of a class, in terms of the program. -/
theorem mem_targetReceivers_iff {target : ClassId} {id : InstanceId} :
    id ∈ program.classTable.targetReceivers owner method target ↔
      ∃ subtype, program.Dispatches owner method subtype target ∧ program.Receives subtype id := by
  rw [ClassTable.mem_targetReceivers]
  constructor
  · rintro ⟨subtype, hknown, hinherits, hnearest, hid⟩
    exact ⟨subtype, ⟨mem_classTable_ids.mp hknown, hinherits, hnearest⟩, mem_receiversOf.mp hid⟩
  · rintro ⟨subtype, hdispatches, hid⟩
    exact ⟨subtype, mem_classTable_ids.mpr hdispatches.known, hdispatches.inherits,
      hdispatches.nearest, mem_receiversOf.mpr hid⟩

theorem implements_of_mem {implementation : Implementation}
    (h : implementation ∈ program.classTable.implementations owner method) :
    program.Implements owner method implementation := by
  rw [ClassTable.mem_implementations, ClassTable.implementation?_eq_some_iff] at h
  obtain ⟨-, -, hmethod, hreceivers, hshape⟩ := h
  refine ⟨hmethod, ?_, fun id => ?_, ClassTable.defines_of_declaredShape? hshape⟩
  · rw [hreceivers]
    exact pairwise_ascending _
  · rw [hreceivers, mem_targetReceivers_iff]

/-- An object that is a receiver of one type only is listed for one target only. -/
theorem Implements.owner_eq {first second : Implementation}
    (hdistinct : program.DistinctReceivers) (hfirst : program.Implements owner method first)
    (hsecond : program.Implements owner method second) {id : InstanceId}
    (hid : id ∈ first.receivers) (hid' : id ∈ second.receivers) : first.owner = second.owner := by
  obtain ⟨subtype, hdispatches, hreceives⟩ := (hfirst.receivers id).mp hid
  obtain ⟨other, hdispatches', hreceives'⟩ := (hsecond.receivers id).mp hid'
  cases hdistinct subtype other id hreceives hreceives'
  exact hdispatches.nearest.unique hdispatches'.nearest

/-- Virtual dispatch is exact: a call is unresolved when there is no receiver for it, and
otherwise it has one implementation for each nearest definition that has a receiver, with the
receivers of exactly the types that it is the nearest definition for. -/
theorem virtual_dispatch_exact (program : Program) (labels : Labels) (owner : ClassId)
    (method : MethodId) :
    ((program.oracle labels).resolveVirtual owner method = none ↔
      ¬ ∃ subtype target id, program.Dispatches owner method subtype target ∧
        program.Receives subtype id) ∧
    (∀ found, (program.oracle labels).resolveVirtual owner method = some found →
      (found.Pairwise fun first second => first.owner < second.owner) ∧
      (∀ target, (∃ implementation ∈ found, implementation.owner = target) ↔
        ∃ subtype id, program.Dispatches owner method subtype target ∧
          program.Receives subtype id) ∧
      ∀ implementation ∈ found, program.Implements owner method implementation) ∧
    (program.DistinctReceivers → ∀ subtype target id,
      program.Dispatches owner method subtype target → program.Receives subtype id →
      ∃ found, (program.oracle labels).resolveVirtual owner method = some found ∧
        ∃ implementation ∈ found, implementation.owner = target ∧
          id ∈ implementation.receivers ∧
          ∀ other ∈ found, id ∈ other.receivers → other = implementation) := by
  have htargets : ∀ target, (∃ implementation ∈ program.classTable.implementations owner method,
      implementation.owner = target) ↔
      ∃ subtype id, program.Dispatches owner method subtype target ∧
        program.Receives subtype id := by
    intro target
    rw [ClassTable.exists_implementation_iff, exists_comm]
    exact exists_congr fun id => mem_targetReceivers_iff
  refine ⟨?_, ?_, ?_⟩
  · refine ClassTable.resolveVirtual_eq_none_iff.trans ?_
    rw [List.eq_nil_iff_forall_not_mem, ← not_exists, not_iff_not]
    constructor
    · rintro ⟨implementation, hmem⟩
      obtain ⟨subtype, id, h⟩ := (htargets implementation.owner).mp ⟨implementation, hmem, rfl⟩
      exact ⟨subtype, implementation.owner, id, h⟩
    · rintro ⟨subtype, target, id, h⟩
      obtain ⟨implementation, hmem, -⟩ := (htargets target).mpr ⟨subtype, id, h⟩
      exact ⟨implementation, hmem⟩
  · intro found hfound
    obtain ⟨rfl, -⟩ := ClassTable.resolveVirtual_eq_some_iff.mp hfound
    exact ⟨ClassTable.pairwise_implementations, htargets, fun _ => implements_of_mem⟩
  · intro hdistinct subtype target id hdispatches hreceives
    obtain ⟨implementation, hmem, rfl⟩ :=
      (htargets target).mpr ⟨subtype, id, hdispatches, hreceives⟩
    have himplements := implements_of_mem hmem
    have hid := (himplements.receivers id).mpr ⟨subtype, hdispatches, hreceives⟩
    refine ⟨_, ClassTable.resolveVirtual_eq_some_iff.mpr ⟨rfl, List.ne_nil_of_mem hmem⟩,
      implementation, hmem, rfl, hid, fun other hother hlisted => ?_⟩
    have howner := (implements_of_mem hother).owner_eq hdistinct himplements hlisted hid
    -- both are what their common class contributes
    have hsame := ClassTable.mem_implementations.mp hother
    rw [howner, ClassTable.mem_implementations.mp hmem] at hsame
    exact (Option.some.inj hsame).symm

/-! ## A class that inherits its method -/

/-- A figure whose area is defined in a base class, one that defines its own, and an entry class
that inherits it.  The interface is named by the base class only, and it extends itself. -/
def figures : Program where
  classes :=
    [{ name := "LFigure;", interfaces := ["LFigure;", "LUnknown;"] },
      { name := "LBase;", interfaces := ["LFigure;"]
        methods := [{ name := "area()I", numRegisters := 2, numArguments := 1 }] },
      { name := "LSquare;", superClass := some "LBase;"
        methods := [{ name := "area()I", numRegisters := 3, numArguments := 1 }] },
      { name := "LMain;", superClass := some "LBase;"
        methods :=
          [{ name := "main()V", numRegisters := 1, numArguments := 1, entryPoint := true
             instructions :=
               [{ pc := 0, mnemonic := "new-instance", registers := [0],
                  reference := some "LSquare;" },
                 { pc := 2, mnemonic := "new-instance", registers := [0],
                   reference := some "LMain;" }] }] }]

/-- The object that the analysis of the entry class starts with runs the method of the base class,
and no other. -/
theorem virtual_dispatch_figures :
    figures.DistinctReceivers ∧
      ∃ found,
        (figures.oracle {}).resolveVirtual (textHash "LFigure;") (textHash "area()I") =
          some found ∧
        ∃ implementation ∈ found, implementation.owner = textHash "LBase;" ∧
          siteHash (textHash "LMain;") 0 0 ∈ implementation.receivers ∧
          ∀ other ∈ found, siteHash (textHash "LMain;") 0 0 ∈ other.receivers →
            other = implementation := by
  have hdistinct : figures.DistinctReceivers := by decide +kernel
  have hlookup : figures.classTable.lookup? (textHash "LMain;") (textHash "area()I") =
      some (textHash "LBase;", { numRegisters := 2, numArguments := 1 }) := by decide +kernel
  refine ⟨hdistinct, (virtual_dispatch_exact figures {} _ _).2.2 hdistinct (textHash "LMain;") _ _
    ⟨mem_classTable_ids.mp (by decide +kernel), ?_, ?_⟩ ?_⟩
  · exact ClassTable.isSubtype_iff.mp (by decide +kernel)
  · exact (ClassTable.lookup?_eq_some_iff.mp hlookup).1
  · exact mem_receiversOf.mp (by decide +kernel)

end Program

end DalvikHorn
