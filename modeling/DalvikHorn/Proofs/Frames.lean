import DalvikHorn.Compile.Program
import DalvikHorn.Proofs.Emitted
import DalvikHorn.Proofs.VirtualDispatch

/-!
# The frames of a program

The relation of a program point has columns for the frame of its method.  A
method is reached in several ways: it is compiled itself, calls enter it, and a
static initialiser is entered when an object of its class is allocated.  Each of
them gets the frame from another place.  When all methods of one class and
signature have the same shape, the frames agree: `Frame.unique`.
-/

namespace DalvikHorn

/-! ## Counted slots -/

/-- Slots that can be counted in words are counted right there. -/
theorem FrameShape.toNat_countSlots {shape : FrameShape} (h : shape.SlotsFit) :
    shape.countSlots.toNat = shape.slotCount := by
  unfold SlotsFit slotCount at h
  have hregisters : shape.numRegisters < UInt32.size := by omega
  have harguments : shape.numArguments < UInt32.size := by omega
  have hboth : shape.numRegisters + shape.numArguments < UInt32.size := by omega
  rw [countSlots, slotCount, UInt32.toNat_add, UInt32.toNat_add,
    UInt32.toNat_ofNat_of_lt' hregisters, UInt32.toNat_ofNat_of_lt' harguments,
    Nat.mod_eq_of_lt hboth]
  exact Nat.mod_eq_of_lt h

theorem FrameShape.countSlots_eq_iff {first second : FrameShape} (hfirst : first.SlotsFit)
    (hsecond : second.SlotsFit) :
    first.countSlots = second.countSlots ↔ first.slotCount = second.slotCount := by
  rw [← UInt32.toNat_inj, toNat_countSlots hfirst, toNat_countSlots hsecond]

/-! ## Frames -/

namespace Program

variable (program : Program)

/-- Two methods that share their class and signature have the same shape. -/
def ShapesAgree : Prop :=
  ∀ first ∈ program.methods, ∀ second ∈ program.methods, first.1.id = second.1.id →
    first.2.id = second.2.id → first.2.shape = second.2.shape

instance : Decidable program.ShapesAgree :=
  inferInstanceAs (Decidable (∀ first ∈ program.methods, ∀ second ∈ program.methods,
    first.1.id = second.1.id → first.2.id = second.2.id → first.2.shape = second.2.shape))

/-- The slots of every method can be counted in words of 32 bits. -/
def SlotsFit : Prop :=
  ∀ entry ∈ program.methods, entry.2.shape.SlotsFit

instance : Decidable program.SlotsFit :=
  inferInstanceAs (Decidable (∀ entry ∈ program.methods, entry.2.shape.SlotsFit))

/-- The program has a method with a shape whose arguments fit into its registers. -/
structure Declares (owner : ClassId) (method : MethodId) (shape : FrameShape) : Prop where
  wellFormed : shape.WellFormed
  declared : ∃ entry ∈ program.methods,
    entry.1.id = owner ∧ entry.2.id = method ∧ entry.2.shape = shape

/-- The frame that the relations of a method have.  The arguments of a static initialiser
need not fit; its entry then has the frame of the initialiser that it overrides. -/
def Frame (owner : ClassId) (method : MethodId) (shape : FrameShape) : Prop :=
  program.Declares owner method shape ∨
    (∀ other, ¬ program.Declares owner method other) ∧
      ∃ target, program.classTable.lookup? owner method = some (target, shape)

variable {program} {owner : ClassId} {method : MethodId} {shape : FrameShape}

theorem mem_methods {decl : Class} {member : Method} :
    (decl, member) ∈ program.methods ↔ decl ∈ program.classes ∧ member ∈ decl.methods := by
  unfold methods
  constructor
  · intro h
    obtain ⟨other, hother, hmem⟩ := List.mem_flatMap.mp h
    obtain ⟨candidate, hcandidate, heq⟩ := List.mem_map.mp hmem
    cases heq
    exact ⟨hother, hcandidate⟩
  · rintro ⟨hdecl, hmember⟩
    exact List.mem_flatMap.mpr ⟨decl, hdecl, List.mem_map.mpr ⟨member, hmember, rfl⟩⟩

theorem Frame.unique (hshapes : program.ShapesAgree) {other : FrameShape}
    (hshape : program.Frame owner method shape) (hother : program.Frame owner method other) :
    shape = other := by
  rcases hshape with hshape | ⟨hnone, target, hlookup⟩
  · rcases hother with hother | ⟨hnone, -⟩
    · obtain ⟨first, hfirst, rfl, rfl, rfl⟩ := hshape.declared
      obtain ⟨second, hsecond, hid, hmethod, rfl⟩ := hother.declared
      exact hshapes first hfirst second hsecond hid.symm hmethod.symm
    · exact absurd hshape (hnone shape)
  · rcases hother with hother | ⟨-, target', hlookup'⟩
    · exact absurd hother (hnone other)
    · rw [hlookup] at hlookup'
      cases hlookup'
      rfl

/-! ## Look-ups in the class table -/

theorem mem_classes_of_class? {id : ClassId} {decl : Class}
    (h : program.classTable.class? id = some decl) : decl ∈ program.classes ∧ decl.id = id := by
  obtain ⟨other, hother, heq⟩ := List.mem_map.mp (mem_of_lookup_eq_some h)
  cases heq
  exact ⟨List.mem_reverse.mp hother, rfl⟩

theorem declares_of_declaredShape?
    (h : program.classTable.declaredShape? owner method = some shape) :
    program.Declares owner method shape := by
  obtain ⟨decl, hdecl, candidate, hmem, hmethod, hfits, rfl⟩ :=
    ClassTable.defines_of_declaredShape? h
  obtain ⟨hclass, rfl⟩ := mem_classes_of_class? hdecl
  exact ⟨hfits, (decl, candidate), mem_methods.mpr ⟨hclass, hmem⟩, rfl, hmethod, rfl⟩

theorem declares_of_lookup? {target : ClassId}
    (h : program.classTable.lookup? owner method = some (target, shape)) :
    program.Declares target method shape :=
  declares_of_declaredShape? (ClassTable.lookup?_eq_some_iff.mp h).2

/-- The nearest definition is that of the class itself when it has one. -/
theorem lookup?_of_declaredShape?
    (h : program.classTable.declaredShape? owner method = some shape) :
    program.classTable.lookup? owner method = some (owner, shape) := by
  unfold ClassTable.lookup? ClassTable.superChain
  rw [ClassTable.superChainFrom]
  simp [h]

/-! ## The answers of the oracle -/

/-- Every target of a call is a method of the program. -/
theorem declares_of_targets {labels : Labels}
    (h : (program.oracle labels).Targets owner method shape) :
    program.Declares owner method shape := by
  rcases h with ⟨named, signature, found, hfound, implementation, hmem, rfl, rfl, rfl⟩ |
    ⟨named, signature, found, hfound, definition, hmem, rfl, rfl, rfl⟩
  · obtain ⟨rfl, -, hshape⟩ := ClassTable.of_mem_resolveVirtual hfound hmem
    exact declares_of_declaredShape? hshape
  · obtain ⟨⟨target, shape⟩, hlookup, rfl⟩ := Option.map_eq_some_iff.mp hfound
    rw [List.mem_singleton.mp hmem]
    exact declares_of_lookup? hlookup

/-- The static initialiser of a class is entered with the frame of its relations. -/
theorem frame_of_initializer (hshapes : program.ShapesAgree) {labels : Labels}
    (hinitializer : (program.oracle labels).hasStaticInitializer owner)
    (hshape : (program.oracle labels).methodShape owner (textHash staticInitializer) =
      some shape) :
    program.Frame owner (textHash staticInitializer) shape := by
  obtain ⟨⟨target, found⟩, hlookup, rfl⟩ := Option.map_eq_some_iff.mp hshape
  by_cases hdeclared :
      ∃ own, program.classTable.declaredShape? owner (textHash staticInitializer) = some own
  · obtain ⟨own, hown⟩ := hdeclared
    have hlookup' := lookup?_of_declaredShape? hown
    rw [hlookup] at hlookup'
    cases hlookup'
    exact .inl (declares_of_declaredShape? hown)
  -- The class has an initialiser but none that fits, so no method of its signature fits.
  · refine .inr ⟨?_, target, hlookup⟩
    intro other hother
    obtain ⟨decl, hdecl, hsome⟩ := (Option.any_eq_true _ _).mp hinitializer
    obtain ⟨initializer, hfound⟩ := Option.isSome_iff_exists.mp hsome
    have hname : initializer.name = staticInitializer := by simpa using List.find?_some hfound
    have hid : initializer.id = textHash staticInitializer := by rw [Method.id, hname]
    obtain ⟨hclass, rfl⟩ := mem_classes_of_class? hdecl
    have hmem : (decl, initializer) ∈ program.methods :=
      mem_methods.mpr ⟨hclass, List.mem_of_find?_eq_some hfound⟩
    obtain ⟨second, hsecond, howner, hmethod, rfl⟩ := hother.declared
    have hsame := hshapes second hsecond (decl, initializer) hmem howner (hmethod.trans hid.symm)
    refine hdeclared (ClassTable.exists_declaredShape?_iff.mpr ⟨decl, hdecl, initializer, ?_⟩)
    exact ⟨List.mem_of_find?_eq_some hfound, hid, hsame ▸ hother.wellFormed⟩

end Program

end DalvikHorn
