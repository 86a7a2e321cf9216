import DalvikHorn.Proofs.LayoutSlots
import DalvikHorn.Proofs.Successors

/-!
# Allocating at a site again

A site holds one local object, so an allocation there ends the life of the one before.
References to it become global, and what it contained is left on the global heap.  When
it referred to local objects itself, the whole local heap may move first.  In either
case the new object takes all slots of the site at the end.

## Strategy

* **States.**  Both steps change the registers and the heap first
  (`StateValue.relocated`) and clear the site afterwards (`StateValue.allocated`).  So
  what is in the slots of the site never depends on the change
  (`StepContext.reallocates_allocated`).
* **Clauses.**  The step has no guards.  The lift is guarded by the header and by the
  local flags of the fields, and it is left out when the site has no fields, which is
  also when none of them is local (`StepContext.Fits.mem_successors_liftIfAnyLocal`).
-/

namespace DalvikHorn

/-! ## Cells and slots -/

namespace CellValue

/-- A cell after an object has moved to the global heap. -/
def released (object : Nat) (cell : CellValue) : CellValue :=
  if cell.isLocal = true ∧ cell.value = object then
    { cell with isLocal := false, isGlobal := true }
  else
    cell

/-- A cell after the whole local heap has moved to the global one. -/
def promoted (cell : CellValue) : CellValue :=
  { cell with isLocal := false, isGlobal := cell.isGlobal || cell.isLocal }

end CellValue

/-- A slot that nothing has been stored in. -/
def SlotValue.empty : SlotValue :=
  ⟨⟨0, false, false, false⟩, true⟩

/-- A slot of a new object. -/
def SlotValue.allocated : SlotValue :=
  ⟨⟨0, false, false, false⟩, false⟩

/-- Some field of a site holds a reference to the local heap. -/
def AllocationSite.HoldsLocal (site : AllocationSite) (heap : List SlotValue) : Prop :=
  ∃ k ∈ site.fieldSlots, ∃ slot, heap[k]? = some slot ∧ slot.cell.isLocal = true

theorem Cell.eval_release {env : Valuation} {cell : Cell} {old : CellValue} {id : BvExpr}
    {object : Nat} (hcell : cell.eval env = some old) (hid : id.eval env = some object) :
    (cell.release id).eval env = some (old.released object) := by
  obtain ⟨hvalue, hhigh, hlocal, hglobal⟩ := Cell.eval_eq_some_iff.mp hcell
  have hrefers : (cell.value.eqTo id).eval env = some (old.value == object) := by
    rw [BvExpr.eqTo, Formula.eval, hvalue, hid]
    rfl
  have hflags : (cell.release id).isLocal.eval env =
        some (old.isLocal && !(old.value == object)) ∧
      (cell.release id).isGlobal.eval env =
        some (old.isGlobal || (old.isLocal && (old.value == object))) := by
    simp only [Cell.release, Formula.eval_both, Formula.eval_either, Formula.eval_negate, hlocal,
      hglobal, hrefers, Option.map_some]
    cases old.isLocal <;> cases old.isGlobal <;> exact ⟨rfl, rfl⟩
  rw [Cell.eval_eq_some_iff, hflags.1, hflags.2, CellValue.released]
  by_cases hmoves : old.isLocal = true ∧ old.value = object
  · rw [if_pos hmoves]
    exact ⟨hvalue, hhigh, by simp [hmoves], by simp [hmoves]⟩
  · rw [if_neg hmoves]
    refine ⟨hvalue, hhigh, ?_, ?_⟩
    · cases hflag : old.isLocal <;> simp_all
    · cases hflag : old.isLocal <;> simp_all

/-! ## States -/

namespace StateValue

/-- A state in which the registers up to the return slot and all slots have changed. -/
def relocated (numRegisters : Nat) (change : CellValue → CellValue)
    (leave : SlotValue → SlotValue) (state : StateValue) : StateValue where
  registers := state.registers.mapIdx fun r cell =>
    if r < numRegisters + 1 then change cell else cell
  heap := state.heap.map leave

/-- A state in which a register refers to a new object at a site. -/
def allocated (width : Nat) (site : AllocationSite) (destination : Nat) (state : StateValue) :
    StateValue where
  registers := state.registers.set destination ⟨site.objectValue width, false, true, false⟩
  heap := state.heap.mapIdx fun k slot => if k ∈ site.slots then .allocated else slot

theorem escaped_eq_relocated (numRegisters : Nat) (state : StateValue) :
    state.escaped numRegisters = state.relocated numRegisters .promoted fun _ => .empty :=
  rfl

end StateValue

namespace State

variable {env : Valuation} {state : State} {value : StateValue}

/-- A state in which an object has been released denotes one in which it has moved. -/
theorem Denotes.release (h : state.Denotes env value) {key : BvExpr} {object : Nat}
    (hkey : key.eval env = some object) (numRegisters : Nat) :
    (state.mapRegisters (numRegisters + 1) fun _ cell => cell.release key).Denotes env
      (value.relocated numRegisters (.released object) id) := by
  rw [StateValue.relocated, List.map_id]
  exact h.mapRegisters (fun _ _ hcell => Cell.eval_release hcell hkey) _

theorem Denotes.allocateAt (h : state.Denotes env value) {width : Nat} {site : AllocationSite}
    {destination : Nat} (hdestination : destination < value.registers.length)
    (hslots : ∀ k ∈ site.slots, k < value.heap.length) {id : BvExpr}
    (hid : id.eval env = some (site.objectValue width)) {post : State}
    (hpost : state.allocateAt width site destination id = .ok post) :
    post.Denotes env (value.allocated width site destination) := by
  have hregister : destination < state.registers.length :=
    length_eq_of_map_eq h.registers ▸ hdestination
  have hheap : ∀ k ∈ site.slots, k < state.heap.length := fun k hk =>
    length_eq_of_map_eq h.heap ▸ hslots k hk
  cases (allocateAt_eq width hregister hheap id).symm.trans hpost
  constructor
  case registers =>
    -- the destination holds a local reference to the site
    have hcell : (Cell.localRef id).eval env = some ⟨site.objectValue width, false, true, false⟩ :=
      Cell.eval_eq_some_iff.mpr ⟨hid, rfl, rfl, rfl⟩
    rw [StateValue.allocated, List.map_set, List.map_set, h.registers, hcell]
  case heap =>
    refine List.ext_getElem? fun k => ?_
    -- the slots are the same but for those of the site
    have hslot : (state.heap[k]?).map (HeapSlot.eval env) = (value.heap[k]?).map some := by
      rw [← List.getElem?_map, h.heap, List.getElem?_map]
    rw [List.getElem?_map, getElem?_clearedHeap, List.getElem?_map, StateValue.allocated,
      List.getElem?_mapIdx]
    by_cases hk : k ∈ site.slots
    · simp only [if_pos hk]
      rw [List.getElem?_eq_getElem (hheap k hk), List.getElem?_eq_getElem (hslots k hk)]
      rfl
    · simp only [if_neg hk, Option.map_id']
      exact hslot

end State

namespace StepContext

variable {cx : StepContext} {before : StateValue}

/-- A state after an allocation at a site.  The destination refers to the new object, whose slots
are zero.  The other registers up to the return slot have changed, the argument copies have not,
and of the other slots there is left what the allocation leaves. -/
structure Reallocates (cx : StepContext) (site : AllocationSite) (destination : Nat)
    (change : CellValue → CellValue) (leave : SlotValue → SlotValue)
    (before after : StateValue) : Prop where
  registers_length : after.registers.length = before.registers.length
  heap_length : after.heap.length = before.heap.length
  destination_eq :
    after.registers[destination]? = some ⟨site.objectValue cx.width, false, true, false⟩
  registers : ∀ r ≤ cx.shape.numRegisters, r ≠ destination →
    after.registers[r]? = before.registers[r]?.map change
  copies : ∀ r, cx.shape.numRegisters < r → r ≠ destination →
    after.registers[r]? = before.registers[r]?
  slots : ∀ k ∈ site.slots, after.heap[k]? = some .allocated
  others : ∀ k ∉ site.slots, after.heap[k]? = before.heap[k]?.map leave

/-- The new object is there after any change, since it is allocated last. -/
theorem reallocates_allocated {site : AllocationSite} {destination : Nat}
    (hdestination : destination < before.registers.length)
    (hslots : ∀ k ∈ site.slots, k < before.heap.length) (change : CellValue → CellValue)
    (leave : SlotValue → SlotValue) :
    cx.Reallocates site destination change leave before
      ((before.relocated cx.shape.numRegisters change leave).allocated cx.width site
        destination) where
  registers_length := by simp [StateValue.allocated, StateValue.relocated]
  heap_length := by simp [StateValue.allocated, StateValue.relocated]
  destination_eq := List.getElem?_set_self (by simpa [StateValue.relocated] using hdestination)
  registers := by
    intro r hr hne
    rw [StateValue.allocated, List.getElem?_set_ne hne.symm, StateValue.relocated,
      List.getElem?_mapIdx]
    simp only [if_pos (Nat.lt_succ_of_le hr)]
  copies := by
    intro r hr hne
    have hcopy : ¬ r < cx.shape.numRegisters + 1 := by omega
    rw [StateValue.allocated, List.getElem?_set_ne hne.symm, StateValue.relocated,
      List.getElem?_mapIdx]
    simp only [if_neg hcopy, Option.map_id']
  slots := by
    intro k hk
    rw [StateValue.allocated, List.getElem?_mapIdx, StateValue.relocated, List.getElem?_map,
      List.getElem?_eq_getElem (hslots k hk)]
    simp only [Option.map_some, if_pos hk]
  others := by
    intro k hk
    rw [StateValue.allocated, List.getElem?_mapIdx, StateValue.relocated, List.getElem?_map]
    simp only [if_neg hk, Option.map_id']

/-! ## Clauses -/

theorem Fits.lt_of_mem_slots (hfits : cx.Fits before) (hlayout : cx.layout.Registered)
    {site : AllocationSite} (hsite : site ∈ cx.layout.sites) :
    ∀ k ∈ site.slots, k < before.heap.length := fun _ hk =>
  (hlayout.lt_of_mem_slots hsite hk).trans_eq hfits.heap_length.symm

/-- The header of a site is a guard: it holds when the site is occupied. -/
theorem Fits.decides_occupied (hfits : cx.Fits before) (hlayout : cx.layout.Registered)
    {site : AllocationSite} (hsite : site ∈ cx.layout.sites) :
    cx.Decides before
      [(HeapSlot.canonical Names.ownHeap site.headerSlot cx.width).free.negate]
      (site.Occupied before.heap) := by
  have hlt : site.headerSlot < before.heap.length := hfits.heap_length ▸ hlayout.headerSlot_lt hsite
  have hheader := List.getElem?_eq_getElem hlt
  have hguard := (@decides_nil cx before).concat fun env hstate => by
    obtain ⟨-, hfree⟩ := HeapSlot.eval_eq_some_iff.mp (eval_slot_of_denotes hstate hheader)
    rw [Formula.eval_negate, hfree, Option.map_some]
  refine hguard.congr ⟨fun h => ⟨_, hheader, by simpa using h.2⟩, fun h => ⟨trivial, ?_⟩⟩
  obtain ⟨header, hfound, hoccupied⟩ := h
  cases hheader.symm.trans hfound
  rw [hoccupied, Bool.not_false]

/-- One of the fields of a site is local exactly when the value of its slot is. -/
theorem any_fieldSlots_iff {site : AllocationSite} {heap : List SlotValue} :
    (site.fieldSlots.any fun k => (cellAt heap k).isLocal) = true ↔ site.HoldsLocal heap := by
  rw [List.any_eq_true]
  refine exists_congr fun k => and_congr_right fun _ => ⟨fun hlocal => ?_, ?_⟩
  · cases hslot : heap[k]? with
    | none =>
        rw [cellAt, List.getD_eq_getElem?_getD, hslot] at hlocal
        cases hlocal
    | some slot => exact ⟨slot, rfl, cellAt_eq hslot ▸ hlocal⟩
  · rintro ⟨slot, hslot, hlocal⟩
    rw [cellAt_eq hslot, hlocal]

section Steps

variable (hfits : cx.Fits before) (hlayout : cx.layout.Registered) {site : AllocationSite}
  (hsite : site ∈ cx.layout.sites) {destination : Nat}
  (hdestination : destination < cx.shape.slotCount)

include hfits hlayout hsite hdestination

/-- The step of an allocation releases the object before and goes on with the new one. -/
theorem Fits.mem_successors_allocate {plain : State}
    (hplain : (cx.pre.mapRegisters (cx.shape.numRegisters + 1) fun _ cell =>
      cell.release (cx.idLiteral site.id)).allocateAt cx.width site destination
        (cx.idLiteral site.id) = .ok plain)
    (hemitted : cx.Emitted (cx.step [] plain)) {fact : Fact} :
    fact ∈ cx.successors [cx.step [] plain] before ↔
      fact = pointFact (cx.pointAt cx.nextPc)
        ((before.relocated cx.shape.numRegisters (.released (site.objectValue cx.width))
          id).allocated cx.width site destination) := by
  have hkey := fun env => eval_idLiteral env cx.width site
  rw [hfits.mem_successors_step decides_nil hemitted fun env hstate => ?_, true_and]
  refine (hstate.release (hkey env) cx.shape.numRegisters).allocateAt ?_ ?_ (hkey env) hplain
  · simpa [StateValue.relocated, hfits.registers_length] using hdestination
  · simpa [StateValue.relocated] using hfits.lt_of_mem_slots hlayout hsite

/-- The lift of an allocation depends on the header and the fields of the site, and goes on with
the new object alone. -/
theorem Fits.mem_successors_reallocate {lifted : List Clause}
    (hlifted : cx.liftIfAnyLocal
      (site.fieldSlots.map fun k => (HeapSlot.canonical Names.ownHeap k cx.width).cell)
      [(HeapSlot.canonical Names.ownHeap site.headerSlot cx.width).free.negate]
      (·.allocateAt cx.width site destination (cx.idLiteral site.id)) = .ok lifted)
    (hemitted : ∀ clause ∈ lifted, cx.Emitted clause) {fact : Fact} :
    fact ∈ cx.successors lifted before ↔
      (site.Occupied before.heap ∧ site.HoldsLocal before.heap) ∧
        (fact = pointFact (cx.pointAt cx.nextPc)
            ((before.relocated cx.shape.numRegisters .promoted fun _ => .empty).allocated cx.width
              site destination) ∨
          ∃ other ∈ cx.layout.sites, other.Occupied before.heap ∧
            fact ∈ other.leaves cx.width before.heap) := by
  have hlength : destination < before.registers.length := hfits.registers_length ▸ hdestination
  have hslots := hfits.lt_of_mem_slots hlayout hsite
  have hpost := @State.allocateAt_eq cx.width site destination
    (cx.pre.promote cx.layout cx.width cx.shape.numRegisters)
    (by simpa [State.promote, State.withHeap, State.mapRegisters, cx.sorted_pre.registers_length]
      using hdestination)
    (fun k hk => (hlayout.lt_of_mem_slots hsite hk).trans_eq List.length_replicate.symm)
    (cx.idLiteral site.id)
  -- whether a field holds a local reference can be read off the state
  have hlocal : ∀ env, cx.pre.Denotes env before → ∀ k ∈ site.fieldSlots,
      (HeapSlot.canonical Names.ownHeap k cx.width).cell.isLocal.eval env =
        some (cellAt before.heap k).isLocal := by
    intro env hstate k hk
    have hlt : k < before.heap.length := hfits.heap_length ▸ hlayout.lt_of_mem_fieldSlots hsite hk
    have hslot := List.getElem?_eq_getElem hlt
    obtain ⟨hcell, -⟩ := HeapSlot.eval_eq_some_iff.mp (eval_slot_of_denotes hstate hslot)
    obtain ⟨-, -, hflag, -⟩ := Cell.eval_eq_some_iff.mp hcell
    rw [hflag, cellAt_eq hslot]
  rw [hfits.mem_successors_liftIfAnyLocal (hfits.decides_occupied hlayout hsite) hlayout hlocal
    hpost (fun env hstate => ?_) hlifted hemitted, any_fieldSlots_iff]
  -- the state that is lifted has the heap emptied and its references promoted
  rw [← StateValue.escaped_eq_relocated]
  refine (hstate.promote hfits.heap_length cx.width cx.shape.numRegisters).allocateAt ?_ ?_
    (eval_idLiteral env cx.width site) hpost
  · simpa [StateValue.escaped] using hlength
  · simpa [StateValue.escaped] using hslots

end Steps

section Allocation

variable (hlayout : cx.layout.Registered) {typeName : String}
  (hallocation : cx.instruction.localAllocation? = some typeName) {destination : UInt32}
  (hdestination : cx.instruction.registers[0]? = some destination)
  (hbound : destination.toNat < cx.shape.slotCount) {site : AllocationSite}
  (hsite : cx.layout.site? cx.allocation = some site)

include hlayout hallocation hdestination hbound hsite

/-- What an allocation at a site does in a state, by its clauses.  The step goes on in any case;
references to the object of the site become global, the slots of the site are those of a new object,
and those of the other sites stay.  The contents of the site are left on the global heap when it was
occupied.  The lift goes on when it was occupied and one of its fields was local; then all
references become global and all other slots empty. -/
theorem reallocation_exact :
    ∃ plain flushed lifted,
      cx.compileOrSkip = .ok (.ofClauses
        (cx.step [] plain :: flushed ++ lifted ++ cx.initializerEntry (textHash typeName))) ∧
      ∀ before, cx.Fits before →
        (∀ fact, fact ∈ cx.successors cx.emission.clauses before ↔
          fact ∈ cx.successors [cx.step [] plain] before ∨ fact ∈ cx.successors flushed before ∨
            fact ∈ cx.successors lifted before ∨
            fact ∈ cx.successors (cx.initializerEntry (textHash typeName)) before) ∧
        (∃ after, cx.Reallocates site destination.toNat (.released (site.objectValue cx.width)) id
            before after ∧
          ∀ fact, fact ∈ cx.successors [cx.step [] plain] before ↔
            fact = pointFact (cx.pointAt cx.nextPc) after) ∧
        (∀ fact, fact ∈ cx.successors flushed before ↔
          site.Occupied before.heap ∧ fact ∈ site.leaves cx.width before.heap) ∧
        (∃ after, cx.Reallocates site destination.toNat .promoted (fun _ => .empty) before after ∧
          ∀ fact, fact ∈ cx.successors lifted before ↔
            (site.Occupied before.heap ∧ site.HoldsLocal before.heap) ∧
              (fact = pointFact (cx.pointAt cx.nextPc) after ∨
                ∃ other ∈ cx.layout.sites, other.Occupied before.heap ∧
                  fact ∈ other.leaves cx.width before.heap)) ∧
        ∀ other ∈ cx.layout.sites, other ≠ site → ∀ k ∈ other.slots, k ∉ site.slots := by
  have hmem : site ∈ cx.layout.sites := List.mem_of_find?_eq_some hsite
  have hid : site.id = cx.allocation := HeapLayout.id_of_site? hsite
  obtain ⟨hopcode, -⟩ := Instruction.of_localAllocation? hallocation
  obtain ⟨plain, flushed, lifted, hplain, hflushed, hlifted, hhandler⟩ :=
    exists_compileNewInstance hlayout hallocation hdestination hbound hsite
  rw [← hid] at hplain hlifted
  -- flushing the site has one result only
  cases (HeapLayout.flushSite_eq hlayout cx.sorted_pre.heap_length hmem).symm.trans hflushed
  have hcompile := compileOrSkip_of_newInstance hopcode hhandler
  have hemitted := (emits_compileNewInstance hopcode fun _ _ => ⟨site, hsite⟩).result _ hhandler
  obtain ⟨hsteps, -⟩ := List.forall_mem_append.mp hemitted
  obtain ⟨hsteps, hlifts⟩ := List.forall_mem_append.mp hsteps
  obtain ⟨hstep, hrecords⟩ := List.forall_mem_cons.mp hsteps
  refine ⟨plain, _, lifted, hcompile, fun before hfits => ?_⟩
  have hregister : destination.toNat < before.registers.length := hfits.registers_length ▸ hbound
  have hallocated := @reallocates_allocated cx before site _ hregister
    (hfits.lt_of_mem_slots hlayout hmem)
  refine ⟨fun fact => ?_, ⟨_, hallocated _ _, fun fact => ?_⟩, fun fact => ?_,
    ⟨_, hallocated _ _, fun fact => ?_⟩, fun other hother hne k hk hk' => ?_⟩
  · -- what is dropped when the clauses are emitted derives nothing
    rw [emission, hcompile]
    refine (mem_successors_ofClauses_iff hemitted).trans ?_
    rw [mem_successors_append_iff, mem_successors_append_iff, ← List.singleton_append,
      mem_successors_append_iff, or_assoc, or_assoc]
  · exact hfits.mem_successors_allocate hlayout hmem hbound hplain hstep
  · rw [hfits.mem_successors_records decides_nil hlayout hmem hrecords, true_and]
  · exact hfits.mem_successors_reallocate hlayout hmem hbound hlifted hlifts
  · exact hne (hlayout.partitioned.eq_of_mem_slots hother hmem hk hk')

end Allocation

end StepContext

namespace Program

/-- A state before the second allocation of `f()I`.  The first register refers to the object that
is in its site already, and so does the second field of this object, whose first field is a
secret. -/
def overloadedState (site : AllocationSite) : StateValue where
  registers :=
    [⟨site.objectValue 32, false, true, false⟩, ⟨7, true, false, false⟩, ⟨0, false, false, false⟩]
  heap :=
    [.empty, .empty, ⟨⟨9, true, false, false⟩, false⟩,
      ⟨⟨site.objectValue 32, false, true, false⟩, false⟩, .allocated]

theorem fits_overloadedState (site : AllocationSite) :
    (overloadedContext 0 1).Fits (overloadedState site) where
  registers_length := rfl
  heap_length := by
    have hsize : (overloadedContext 0 1).layout.size = 5 := by decide +kernel
    rw [hsize]
    rfl
  inRange := by
    have hwidth : (overloadedContext 0 1).width = 32 := rfl
    have hobject : site.objectValue 32 < valueCount 32 := twosComplement_lt _ _
    have hsmall : 0 < valueCount 32 ∧ 7 < valueCount 32 ∧ 9 < valueCount 32 := by decide
    rw [hwidth]
    constructor
    · simp [overloadedState, hobject, hsmall]
    · simp [overloadedState, SlotValue.empty, SlotValue.allocated, hobject, hsmall]

/-- The alias of the object before is global after the step, and the secret of this object is on
the global heap. -/
theorem reallocation_exact_sample :
    ∃ site ∈ overloaded.layout.sites,
      let cx := overloadedContext 0 1
      let derived := cx.successors cx.emission.clauses (overloadedState site)
      (∃ after, pointFact (cx.pointAt cx.nextPc) after ∈ derived ∧
        after.registers[0]? = some ⟨site.objectValue 32, false, false, true⟩ ∧
        after.registers[1]? = some ⟨site.objectValue 32, false, true, false⟩) ∧
      ∃ field, objectFact 32 site.classId site.id field ⟨9, true, false, false⟩ ∈ derived := by
  obtain ⟨site, hsite, hoffset, hlength⟩ : ∃ site, overloaded.layout.site?
      (overloadedContext 0 1).allocation = some site ∧ site.offset = 2 ∧ site.fields.length = 2 :=
    ⟨_, rfl, by decide +kernel, by decide +kernel⟩
  have hlayout : (overloadedContext 0 1).layout.Registered :=
    overloaded.registered_heapLayout (overloaded.oracle {})
  obtain ⟨plain, flushed, lifted, -, hsteps⟩ := StepContext.reallocation_exact hlayout
    (by decide +kernel : (overloadedContext 0 1).instruction.localAllocation? = some "Lq;")
    (rfl : (overloadedContext 0 1).instruction.registers[0]? = some 1) (by decide +kernel) hsite
  obtain ⟨hderived, ⟨after, hafter, hplain⟩, hflushed, -⟩ := hsteps _ (fits_overloadedState site)
  -- the old object is released, the new one is local, and the secret is on the heap
  refine ⟨site, List.mem_of_find?_eq_some hsite, ⟨after, ?_, ?_, hafter.destination_eq⟩, ?_⟩
  · exact (hderived _).mpr (.inl ((hplain _).mpr rfl))
  · rw [hafter.registers 0 (Nat.zero_le _) (by decide)]
    have hreleased : (CellValue.mk (site.objectValue 32) false true false).released
        (site.objectValue 32) = ⟨site.objectValue 32, false, false, true⟩ := if_pos ⟨rfl, rfl⟩
    exact congrArg some hreleased
  · -- the site has two fields, so its header is slot 4
    obtain ⟨first, second, hfields⟩ := List.length_eq_two.mp hlength
    have hheader : site.headerSlot = 4 := by
      rw [AllocationSite.headerSlot, AllocationSite.size, hoffset, hlength]
    refine ⟨first.1, (hderived _).mpr (.inr (.inl ((hflushed _).mpr ⟨?_, ?_⟩)))⟩
    · exact ⟨.allocated, by rw [hheader]; rfl, rfl⟩
    · have hsecret : objectFact 32 site.classId site.id first.1
          (cellAt (overloadedState site).heap 2) ∈
            site.contents 32 (overloadedState site).heap 0 false := by
        simp [AllocationSite.contents, AllocationSite.hasLayout, AllocationSite.fieldSlots,
          AllocationSite.size, hfields, hoffset, List.range']
      exact ⟨0, valueCount_pos _, false, hsecret⟩

end Program

end DalvikHorn
