import Mathlib.Algebra.Order.Group.Unbundled.Int
import DalvikHorn.Proofs.LayoutSlots
import DalvikHorn.Proofs.Successors

/-!
# Fields of local objects

A store into a field of a local object and a load of this field have one clause for each
site with the field.  In a state in which the register refers to the object of a site,
the clause of this site is enabled: the store fills the slot of the field, and a load
through the same register reads back what has been stored.  The clauses of the other
sites are not enabled when values have at least 32 bits.

## Strategy

* **Guards.**  Whether a register refers to a site depends on the state alone
  (`StepContext.decides_refersTo`), so a clause derives one state or nothing.
* **Literals.**  Sites have different identifiers.  An identifier has 32 bits, so it can
  be read off its literal from this width on (`twosComplement_injective`).  With fewer
  bits two sites may share a literal, and then both clauses are enabled.
-/

namespace DalvikHorn

/-! ## Literals -/

/-- Identifiers can be told apart when values have at least as many bits. -/
theorem twosComplement_injective {width : Nat} (hwidth : 32 ≤ width) {first second : Int32}
    (h : twosComplement first.toInt width = twosComplement second.toInt width) :
    first = second := by
  -- the words hold at least 32 bits
  have hcount : (2 : Int) ^ 32 ≤ valueCount width := by
    have hbits : 32 ≤ min width wordBits := Nat.le_min.mpr ⟨hwidth, by decide⟩
    exact_mod_cast Nat.pow_le_pow_right (Nat.succ_pos 1) hbits
  have hpositive : (valueCount width : Int) ≠ 0 := by omega
  have hsame : first.toInt % valueCount width = second.toInt % valueCount width := by
    have hfirst := Int.emod_nonneg first.toInt hpositive
    have hsecond := Int.emod_nonneg second.toInt hpositive
    unfold twosComplement at h
    omega
  -- the difference is a multiple of the count, and too small to be one but zero
  have hdvd : (valueCount width : Int) ∣ first.toInt - second.toInt :=
    Int.dvd_of_emod_eq_zero (Int.emod_eq_emod_iff_emod_sub_eq_zero.mp hsame)
  have hsmall : |first.toInt - second.toInt| < valueCount width := by
    have hlower := first.le_toInt
    have hupper := first.toInt_lt
    have hlower' := second.le_toInt
    have hupper' := second.toInt_lt
    rw [abs_lt]
    constructor <;> omega
  have hzero : first.toInt - second.toInt = 0 := Int.eq_zero_of_abs_lt_dvd hdvd hsmall
  exact Int32.toInt_inj.mp (by omega)

/-- Two sites of a layout with one value are the same. -/
theorem HeapLayout.Partitioned.eq_of_objectValue_eq {layout : HeapLayout}
    (h : layout.Partitioned) {width : Nat} (hwidth : 32 ≤ width) {first second : AllocationSite}
    (hfirst : first ∈ layout.sites) (hsecond : second ∈ layout.sites)
    (heq : first.objectValue width = second.objectValue width) : first = second :=
  List.inj_on_of_nodup_map h.nodup_ids hfirst hsecond (twosComplement_injective hwidth heq)

theorem HeapLayout.mem_of_mem_sitesWithField {layout : HeapLayout} {field : FieldId}
    {entry : AllocationSite × Nat} (h : entry ∈ layout.sitesWithField field) :
    entry.1 ∈ layout.sites := by
  obtain ⟨site, hsite, hslot⟩ := List.mem_filterMap.mp h
  obtain ⟨k, -, rfl⟩ := Option.map_eq_some_iff.mp hslot
  exact hsite

/-! ## States -/

namespace StateValue

/-- A state after a cell has been stored into a slot: the slot has the cell and is not free, and the
label of the holder covers the label of the cell.  Nothing else has changed. -/
structure Stores (before : StateValue) (k : Nat) (cell : CellValue) (holder : Nat)
    (after : StateValue) : Prop where
  slot_eq : after.heap[k]? = some ⟨cell, false⟩
  other_slots : ∀ other ≠ k, after.heap[other]? = before.heap[other]?
  holder_eq : after.registers[holder]? = before.registers[holder]?.map fun object =>
    { object with high := object.high || cell.high }
  other_registers : ∀ r ≠ holder, after.registers[r]? = before.registers[r]?

/-- A state after a register has been loaded.  It has the value and the label of the cell and is
global when the cell is, but it is not local.  Nothing else has changed. -/
structure Loads (before : StateValue) (cell : CellValue) (destination : Nat)
    (after : StateValue) : Prop where
  destination_eq : after.registers[destination]? =
    some ⟨cell.value, cell.high, false, cell.isGlobal⟩
  other_registers : ∀ r ≠ destination, after.registers[r]? = before.registers[r]?
  heap_eq : after.heap = before.heap

theorem stores_put (state : StateValue) {k : Nat} (hk : k < state.heap.length) (cell : CellValue)
    (holder : Nat) : state.Stores k cell holder (state.put k cell holder) where
  slot_eq := List.getElem?_set_self hk
  other_slots := fun _ hne => List.getElem?_set_ne hne.symm
  holder_eq := by
    rw [put, raise, List.getElem?_modify]
    simp
  other_registers := by
    intro r hne
    rw [put, raise, List.getElem?_modify]
    simp [hne.symm]

theorem loads_get (state : StateValue) (cell : CellValue) {destination : Nat}
    (hdestination : destination < state.registers.length) :
    state.Loads cell destination (state.get cell destination) where
  destination_eq := List.getElem?_set_self hdestination
  other_registers := fun _ hne => List.getElem?_set_ne hne.symm
  heap_eq := rfl

end StateValue

namespace StepContext

variable {cx : StepContext} {before : StateValue}

/-! ## Guards -/

/-- A register refers to a site when it is local and has the value of the site. -/
theorem decides_refersTo {r : Nat} {object : CellValue}
    (hobject : before.registers[r]? = some object) (site : AllocationSite) :
    cx.Decides before (cx.refersTo (.register r cx.width) site)
      (object.isLocal = true ∧ object.value = site.objectValue cx.width) := by
  have hlocal : ∀ env, cx.pre.Denotes env before →
      (Cell.register r cx.width).isLocal.eval env = some object.isLocal := fun env hstate =>
    (Cell.eval_eq_some_iff.mp (eval_register_of_denotes hstate hobject)).2.2.1
  refine ((decides_nil.concat hlocal).concat
    fun env hstate => eval_hasId_of_denotes hstate hobject site.id).congr ?_
  rw [true_and, beq_iff_eq]
  rfl

theorem HoldsSite.decides {r : Nat} {site : AllocationSite} (h : cx.HoldsSite before r site) :
    cx.Decides before (cx.refersTo (.register r cx.width) site) True := by
  obtain ⟨object, hobject, hlocal, hid⟩ := h
  exact (decides_refersTo hobject site).congr (iff_true_intro ⟨hlocal, hid⟩)

/-- A register that refers to a site does not refer to another one. -/
theorem HoldsSite.decides_other {r : Nat} {site : AllocationSite} (h : cx.HoldsSite before r site)
    (hlayout : cx.layout.Registered) (hwidth : 32 ≤ cx.width) (hsite : site ∈ cx.layout.sites)
    {other : AllocationSite} (hother : other ∈ cx.layout.sites) (hne : other ≠ site) :
    cx.Decides before (cx.refersTo (.register r cx.width) other) False := by
  obtain ⟨object, hobject, -, hid⟩ := h
  refine (decides_refersTo hobject other).congr (iff_false_intro ?_)
  rintro ⟨-, hvalue⟩
  exact hne (hlayout.partitioned.eq_of_objectValue_eq hwidth hother hsite (hvalue.symm.trans hid))

theorem Precedes.holdsSite {first second : StepContext} (h : first.Precedes second) {r : Nat}
    {site : AllocationSite} (hsite : first.HoldsSite before r site) :
    second.HoldsSite before r site := by
  rw [HoldsSite, h.width_eq]
  exact hsite

/-! ## Clauses -/

section Clauses

variable (hfits : cx.Fits before) {enabled : Prop} {object : UInt32} {site : AllocationSite}
  {k : Nat}
  (hguards : cx.Decides before (cx.refersTo (.register object.toNat cx.width) site) enabled)

include hfits hguards

theorem Fits.mem_successors_storeClause {source : UInt32}
    (hobject : object.toNat < cx.shape.slotCount) (hslot : k < cx.layout.size)
    (hemitted : cx.Emitted (cx.storeClause source object (site, k))) {cell : CellValue}
    (hcell : before.registers[source.toNat]? = some cell) {fact : Fact} :
    fact ∈ cx.successors [cx.storeClause source object (site, k)] before ↔
      enabled ∧ fact = pointFact (cx.pointAt cx.nextPc) (before.put k cell object.toNat) :=
  hfits.mem_successors_step hguards hemitted fun _ hstate => denotes_put hstate hobject hslot hcell

theorem Fits.mem_successors_loadClause {destination : UInt32}
    (hemitted : cx.Emitted (cx.loadClause destination object (site, k))) {slot : SlotValue}
    (hslot : before.heap[k]? = some slot) {fact : Fact} :
    fact ∈ cx.successors [cx.loadClause destination object (site, k)] before ↔
      enabled ∧ fact = pointFact (cx.pointAt cx.nextPc) (before.get slot.cell destination.toNat) :=
  hfits.mem_successors_step hguards hemitted fun _ hstate => denotes_get hstate _ hslot

end Clauses

/-! ## A store and a load -/

section Agreement

variable {store load : StepContext} {source object destination : UInt32} {field loaded : FieldRef}
  (hlayout : store.layout.Registered) (hnext : store.Precedes load)
  (hput : store.PutsField source object field) (hget : load.GetsField destination object loaded)
  (hsame : loaded.fieldId = field.fieldId)

include hlayout hnext hput hget hsame

/-- A field of a local object is loaded as it has been stored.  A store and a load through one
register have a clause for each site that declares the field.  In a state in which the register
refers to a site, the clause of the store for this site goes on with the slot filled, and the clause
of the load for this site goes on from there with what has been stored.  From 32 bits on, the
clauses for the other sites derive nothing in these states. -/
theorem local_field_agreement :
    ∃ stores loads,
      store.compileOrSkip = .ok (.ofClauses (stores ++
        (store.layout.sitesWithField field.fieldId).map (store.storeClause source object))) ∧
      load.compileOrSkip = .ok (.ofClauses (loads ++
        (store.layout.sitesWithField field.fieldId).map (load.loadClause destination object))) ∧
      ∀ site ∈ store.layout.sites, ∀ k, site.fieldSlot? field.fieldId = some k →
        ∀ before, store.Fits before → store.HoldsSite before object.toNat site →
          ∃ cell stored after, before.registers[source.toNat]? = some cell ∧
            before.Stores k cell object.toNat stored ∧ stored.Loads cell destination.toNat after ∧
            store.storeClause source object (site, k) ∈ store.emission.clauses ∧
            load.loadClause destination object (site, k) ∈ load.emission.clauses ∧
            (∀ fact, fact ∈ store.successors [store.storeClause source object (site, k)] before ↔
              fact = pointFact load.point stored) ∧
            (∀ fact, fact ∈ load.successors [load.loadClause destination object (site, k)] stored ↔
              fact = pointFact (load.pointAt load.nextPc) after) ∧
            (32 ≤ store.width → ∀ state, state = before ∨ state = stored →
              ∀ entry ∈ store.layout.sitesWithField field.fieldId, entry.1 ≠ site →
                store.successors [store.storeClause source object entry] state = ∅ ∧
                  load.successors [load.loadClause destination object entry] state = ∅) := by
  have hlayout' : load.layout.Registered := hnext.layout_eq ▸ hlayout
  obtain ⟨plain, lifted, -, -, hstores⟩ := exists_compileInstancePut hlayout hput
  obtain ⟨fromGlobal, hloads⟩ := exists_compileInstanceGet hlayout' hget
  rw [hsame, hnext.layout_eq] at hloads
  have hputs : ∀ entry ∈ store.layout.sitesWithField field.fieldId,
      store.Emitted (store.storeClause source object entry) := fun entry hentry =>
    emits_compileInstancePut.result _ hstores _
      (List.mem_append_right _ (List.mem_map_of_mem hentry))
  have hgets : ∀ entry ∈ store.layout.sitesWithField field.fieldId,
      load.Emitted (load.loadClause destination object entry) := fun entry hentry =>
    emits_compileInstanceGet.result _ hloads _
      (List.mem_append_right _ (List.mem_map_of_mem hentry))
  refine ⟨_, fromGlobal, hput.compileOrSkip_eq hstores, hget.compileOrSkip_eq hloads, ?_⟩
  intro site hsite k hk before hfits hholds
  have hentry : (site, k) ∈ store.layout.sitesWithField field.fieldId :=
    List.mem_filterMap.mpr ⟨site, hsite, by rw [hk]; rfl⟩
  have hlt := hlayout.lt_of_mem_sitesWithField hentry
  obtain ⟨cell, hcell⟩ : ∃ cell, before.registers[source.toNat]? = some cell :=
    ⟨_, List.getElem?_eq_getElem (hfits.registers_length ▸ hput.source_lt)⟩
  -- the state between the instructions
  have hstored := before.stores_put (hfits.heap_length ▸ hlt) cell object.toNat
  have hfits' := hfits.put (hfits.inRange.registers cell (List.mem_of_getElem? hcell)) k
    object.toNat
  have hholds' := hholds.put k cell object.toNat
  have hloaded := (before.put k cell object.toNat).loads_get cell
    ((hnext.fits hfits').registers_length ▸ hget.destination_lt)
  have hstore : ∀ fact, fact ∈ store.successors [store.storeClause source object (site, k)]
      before ↔ fact = pointFact load.point (before.put k cell object.toNat) := by
    intro fact
    rw [hfits.mem_successors_storeClause hholds.decides hput.object_lt hlt (hputs _ hentry) hcell,
      true_and, hnext.point_eq]
  have hload : ∀ fact, fact ∈ load.successors [load.loadClause destination object (site, k)]
      (before.put k cell object.toNat) ↔ fact = pointFact (load.pointAt load.nextPc)
        ((before.put k cell object.toNat).get cell destination.toNat) := by
    intro fact
    rw [(hnext.fits hfits').mem_successors_loadClause (hnext.holdsSite hholds').decides
      (hgets _ hentry) hstored.slot_eq, true_and]
  refine ⟨cell, _, _, hcell, hstored, hloaded, ?_, ?_, hstore, hload, ?_⟩
  · rw [emission, hput.compileOrSkip_eq hstores]
    exact mem_ofClauses_of_mem_successors (List.mem_append_right _ (List.mem_map_of_mem hentry))
      (hputs _ hentry) ((hstore _).mpr rfl)
  · rw [emission, hget.compileOrSkip_eq hloads]
    exact mem_ofClauses_of_mem_successors (List.mem_append_right _ (List.mem_map_of_mem hentry))
      (hgets _ hentry) ((hload _).mpr rfl)
  · intro hwidth state hstate other hother hne
    obtain ⟨hstateFits, hstateHolds⟩ : store.Fits state ∧
        store.HoldsSite state object.toNat site := by
      rcases hstate with rfl | rfl
      · exact ⟨hfits, hholds⟩
      · exact ⟨hfits', hholds'⟩
    have hmem : other.1 ∈ store.layout.sites := HeapLayout.mem_of_mem_sitesWithField hother
    constructor
    · exact hstateFits.successors_eq_empty
        (hstateHolds.decides_other hlayout hwidth hsite hmem hne) (hputs _ hother)
    · refine (hnext.fits hstateFits).successors_eq_empty
        ((hnext.holdsSite hstateHolds).decides_other hlayout' ?_ ?_ ?_ hne) (hgets _ hother)
      · rwa [hnext.width_eq]
      · rwa [hnext.layout_eq]
      · rwa [hnext.layout_eq]

end Agreement

/-- The reference to the second object is stored into the first one and loaded from it. -/
theorem local_field_agreement_sample :
    ∃ site ∈ nestingStore.layout.sites, nestingStore.HoldsSite (nestingState false) 0 site ∧
      ∃ stored after,
        (∀ fact, fact ∈ nestingStore.successors [nestingStore.storeClause 1 0 (site, 0)]
          (nestingState false) ↔ fact = pointFact nestingLoad.point stored) ∧
        stored.heap[0]? = some ⟨⟨2237463220, false, true, false⟩, false⟩ ∧
        (∀ fact, fact ∈ nestingLoad.successors [nestingLoad.loadClause 2 0 (site, 0)] stored ↔
          fact = pointFact (nestingLoad.pointAt nestingLoad.nextPc) after) ∧
        after.registers[2]? = some ⟨2237463220, false, false, false⟩ := by
  obtain ⟨site, hentry, hholds⟩ := nestingStore_holdsSite false
  have hsite : site ∈ nestingStore.layout.sites := HeapLayout.mem_of_mem_sitesWithField hentry
  obtain ⟨-, -, -, -, hagree⟩ := local_field_agreement registered_nestingStore
    nesting_storesThrough.loads_next nesting_storesThrough.stores nesting_storesThrough.loads rfl
  obtain ⟨cell, stored, after, hcell, hstored, hloaded, -, -, hstore, hload, -⟩ :=
    hagree site hsite 0 (HeapLayout.fieldSlot?_of_mem_sitesWithField hentry) _
      (nestingStore_fits false) hholds
  have hsource : (nestingState false).registers[1]? = some ⟨2237463220, false, true, false⟩ := rfl
  cases hsource.symm.trans hcell
  exact ⟨site, hsite, hholds, stored, after, hstore, hstored.slot_eq, hload,
    hloaded.destination_eq⟩

end StepContext

end DalvikHorn
