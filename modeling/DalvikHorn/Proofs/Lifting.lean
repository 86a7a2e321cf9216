import DalvikHorn.Proofs.KeptRegisters
import DalvikHorn.Proofs.StateValuations

/-!
# The local heap moves to the global one

A lift writes every occupied site of the local heap to the global heap and goes on
with an empty local heap.  Its clauses can be listed (`StepContext.Lifts`), and they
derive all of it from a state in which the guards of the lift hold
(`StepContext.Lifts.derives`).

## Strategy

* **Slots.**  Registration places every site behind the ones before, so all slots of a
  site are in the heap, and no clause of a lift is lost to a slot that is out of range.
* **Values.**  Under the valuation of a state the guards are true, so no clause is
  dropped, and the promoted state has the escaped one as its value.
-/

namespace DalvikHorn

/-! ## Slots of a layout -/

namespace HeapLayout

/-- The layouts that can be built by registering sites. -/
inductive Registered : HeapLayout → Prop
  | empty : Registered .empty
  | addSite {layout : HeapLayout} (h : Registered layout) (id : InstanceId) (typeName : String)
      (classId : ClassId) (fields : List (FieldId × Bool)) :
      Registered (layout.addSite id typeName classId fields)

theorem size_append (sites : List AllocationSite) (site : AllocationSite) :
    (HeapLayout.mk (sites ++ [site])).size = (HeapLayout.mk sites).size + site.size + 1 := by
  induction sites with
  | nil => simp [size]
  | cons first rest ih =>
      simp only [size, List.cons_append, List.foldr_cons] at ih ⊢
      omega

theorem Registered.headerSlot_lt {layout : HeapLayout} (h : layout.Registered)
    {site : AllocationSite} (hsite : site ∈ layout.sites) : site.headerSlot < layout.size := by
  induction h with
  | empty => cases hsite
  | @addSite layout _ id typeName classId fields ih =>
      unfold HeapLayout.addSite at hsite ⊢
      split
      · rename_i hfound
        rw [hfound] at hsite
        exact ih hsite
      · rename_i hnone
        rw [hnone] at hsite
        rw [size_append]
        rcases List.mem_append.mp hsite with hold | hnew
        · have hlt : site.headerSlot < layout.size := ih hold
          change site.headerSlot < layout.size + _ + 1
          omega
        · rw [List.mem_singleton.mp hnew]
          change layout.size + _ < layout.size + _ + 1
          exact Nat.lt_succ_self _

/-- The slot of a field comes before the header. -/
theorem Registered.fieldSlot_lt {layout : HeapLayout} (h : layout.Registered)
    {site : AllocationSite} (hsite : site ∈ layout.sites) {i : Nat} (hi : i < site.fields.length) :
    site.offset + i < layout.size := by
  have hheader := h.headerSlot_lt hsite
  rw [AllocationSite.headerSlot, AllocationSite.size] at hheader
  omega

theorem Registered.lt_of_mem_fieldSlots {layout : HeapLayout} (h : layout.Registered)
    {site : AllocationSite} (hsite : site ∈ layout.sites) {k : Nat} (hk : k ∈ site.fieldSlots) :
    k < layout.size := by
  obtain ⟨i, hi, rfl⟩ := List.mem_range'.mp hk
  rw [Nat.one_mul]
  exact h.fieldSlot_lt hsite hi

theorem Registered.lt_of_mem_sitesWithField {layout : HeapLayout} (h : layout.Registered)
    {field : FieldId} {site : AllocationSite} {k : Nat}
    (hmem : (site, k) ∈ layout.sitesWithField field) : k < layout.size := by
  obtain ⟨found, hfound, hslot⟩ := List.mem_filterMap.mp hmem
  obtain ⟨slot, hslot, heq⟩ := Option.map_eq_some_iff.mp hslot
  cases heq
  obtain ⟨i, hi, rfl⟩ := Option.map_eq_some_iff.mp hslot
  exact h.fieldSlot_lt hfound (List.findIdx?_eq_some_iff_getElem.mp hi).1

end HeapLayout

theorem Program.registered_heapLayout (program : Program) (oracle : Oracle) :
    (program.heapLayout oracle).Registered := by
  refine List.foldlRecOn _ _ .empty ?_
  rintro layout hlayout ⟨⟨point, typeName⟩, request⟩ -
  exact hlayout.addSite _ _ _ _

/-! ## Values of changed states -/

/-- A state whose local heap has moved: the references of its registers are global, and all its
slots are empty. -/
def StateValue.escaped (numRegisters : Nat) (state : StateValue) : StateValue where
  registers := state.registers.mapIdx fun r cell =>
    if r < numRegisters + 1 then
      { cell with isLocal := false, isGlobal := cell.isGlobal || cell.isLocal }
    else
      cell
  heap := state.heap.map fun _ => ⟨⟨0, false, false, false⟩, true⟩

namespace StateValue

theorem getElem?_escaped (numRegisters : Nat) (state : StateValue) (r : Nat) :
    (state.escaped numRegisters).registers[r]? = state.registers[r]?.map fun cell =>
      if r < numRegisters + 1 then
        { cell with isLocal := false, isGlobal := cell.isGlobal || cell.isLocal }
      else
        cell := by
  simp [escaped]

/-- A state in which the label of a register may have been raised. -/
def raise (state : StateValue) (r : Nat) (raised : Bool) : StateValue :=
  { state with
    registers := state.registers.modify r fun cell => { cell with high := cell.high || raised } }

end StateValue

namespace State

variable {env : Valuation} {state : State} {value : StateValue}

/-- A change of registers that every cell survives denotes the change of their values. -/
theorem Denotes.mapRegisters (h : state.Denotes env value) {change : Cell → Cell}
    {new : CellValue → CellValue}
    (hchange : ∀ cell old, cell.eval env = some old → (change cell).eval env = some (new old))
    (count : Nat) :
    (state.mapRegisters count fun _ cell => change cell).Denotes env
      { value with
        registers := value.registers.mapIdx fun r cell =>
          if r < count then new cell else cell } where
  registers := by
    refine List.ext_getElem? fun r => ?_
    rw [List.getElem?_map, getElem?_mapRegisters, List.getElem?_map, List.getElem?_mapIdx]
    cases hcell : state.registers[r]? with
    | none =>
        have hnone : value.registers[r]? = none := by
          rw [List.getElem?_eq_none_iff, length_eq_of_map_eq h.registers]
          exact List.getElem?_eq_none_iff.mp hcell
        rw [hnone]
        rfl
    | some cell =>
        obtain ⟨old, hold, heval⟩ := getElem?_of_map_eq h.registers hcell
        rw [hold]
        dsimp only [Option.map_some]
        split
        · exact congrArg some (hchange cell old heval)
        · exact congrArg some heval
  heap := h.heap

theorem Denotes.promote (h : state.Denotes env value) {layout : HeapLayout}
    (hheap : value.heap.length = layout.size) (width numRegisters : Nat) :
    (state.promote layout width numRegisters).Denotes env (value.escaped numRegisters) where
  registers := by
    refine (h.mapRegisters (fun cell old heval => ?_) (numRegisters + 1)).registers
    obtain ⟨hvalue, hhigh, hlocal, hglobal⟩ := Cell.eval_eq_some_iff.mp heval
    refine Cell.eval_eq_some_iff.mpr ⟨hvalue, hhigh, rfl, ?_⟩
    rw [Cell.promote, Formula.eval_either, hlocal, hglobal]
    cases old.isGlobal <;> rfl
  heap := by
    rw [heap_promote, StateValue.escaped, List.map_replicate, List.map_map, ← hheap]
    exact List.map_const'.symm

theorem Denotes.set (h : state.Denotes env value) {r : Nat} {cell : Cell} {new : CellValue}
    (hr : r < value.registers.length) (hcell : cell.eval env = some new) :
    ∃ post, state.set r cell = .ok post ∧
      post.Denotes env { value with registers := value.registers.set r new } := by
  have hlength : r < state.registers.length := length_eq_of_map_eq h.registers ▸ hr
  refine ⟨_, if_pos hlength, ?_, h.heap⟩
  rw [List.map_set, List.map_set, h.registers, hcell]

/-- A tainted register keeps what it has, with a label that covers the taint. -/
theorem Denotes.taint (h : state.Denotes env value) {r : Nat} {taint : Formula} {raised : Bool}
    (hr : r < value.registers.length) (htaint : taint.eval env = some raised) :
    ∃ post, state.taint r taint = .ok post ∧ post.Denotes env (value.raise r raised) := by
  have hold := List.getElem?_eq_getElem hr
  obtain ⟨cell, hcell, heval⟩ := exists_getElem?_of_map_eq h.registers hold
  obtain ⟨hvalue, hhigh, hlocal, hglobal⟩ := Cell.eval_eq_some_iff.mp heval
  have hnew : (cell.taint taint).eval env =
      some { value.registers[r] with high := value.registers[r].high || raised } := by
    refine Cell.eval_eq_some_iff.mpr ⟨hvalue, ?_, hlocal, hglobal⟩
    rw [Cell.taint, Cell.withHigh, Formula.eval_either, hhigh, htaint]
    cases value.registers[r].high <;> rfl
  obtain ⟨post, hpost, hdenotes⟩ := h.set hr hnew
  refine ⟨post, ?_, ?_⟩
  · rw [State.taint, State.register, hcell]
    exact hpost
  · rwa [StateValue.raise, List.modify_eq_set_getElem?, hold]

end State

/-- The fact that an object on the global heap has the contents of a cell in a field. -/
def objectFact (width : Nat) (classId : ClassId) (id : InstanceId) (field : FieldId)
    (cell : CellValue) : Fact where
  relation := GlobalHeap.objectRelation
  args := [.bits (twosComplement classId.toInt width), .bits (twosComplement id.toInt width),
    .bits (twosComplement field.toInt width), .bits cell.value, .bool cell.high,
    .bool (cell.isLocal || cell.isGlobal)]

/-- A fact about an object holds what the slot of the field holds. -/
theorem GlobalHeap.denotes_object {env : Valuation} {slot : HeapSlot} {value : SlotValue}
    (hslot : slot.eval env = some value) (width : Nat) (classId : ClassId) (id : InstanceId)
    (field : FieldId) :
    (object (idLiteral width classId) (idLiteral width id) (idLiteral width field)
      slot.cell.value slot.cell.high slot.cell.blocked).Denotes env
        (objectFact width classId id field value.cell) := by
  obtain ⟨hcell, -⟩ := HeapSlot.eval_eq_some_iff.mp hslot
  obtain ⟨hvalue, hhigh, hlocal, hglobal⟩ := Cell.eval_eq_some_iff.mp hcell
  have hblocked : slot.cell.blocked.eval env =
      some (value.cell.isLocal || value.cell.isGlobal) := by
    rw [Cell.blocked, Formula.eval_either, hlocal, hglobal]
    cases value.cell.isLocal <;> rfl
  refine ⟨rfl, ?_⟩
  simp [object, objectFact, Term.eval, hvalue, hhigh, hblocked, idLiteral, BvExpr.ofInt,
    BvExpr.eval]

/-! ## Reading what is there -/

namespace StepContext

variable {cx : StepContext}

theorem register_eq {r : UInt32} (hr : r.toNat < cx.shape.slotCount) :
    cx.register r = .ok (.register r.toNat cx.width) := by
  rw [register, State.register, getElem?_pre hr]

theorem instructionRegister_eq {index : Nat} {r : UInt32}
    (hr : cx.instruction.registers[index]? = some r) : cx.instruction.register index = .ok r := by
  rw [Instruction.register, hr]

theorem operand_eq {index : Nat} {r : UInt32} (hindex : cx.instruction.registers[index]? = some r)
    (hr : r.toNat < cx.shape.slotCount) :
    cx.operand index = .ok (.register r.toNat cx.width) := by
  rw [operand, instructionRegister_eq hindex]
  exact register_eq hr

theorem registers_eq {registers : List UInt32}
    (hregisters : ∀ r ∈ registers, r.toNat < cx.shape.slotCount) :
    registers.mapM cx.register =
      .ok (registers.map fun r => .register r.toNat cx.width) := by
  rw [mapM_eq_ok_iff, List.map_map]
  exact List.map_congr_left fun r hr => register_eq (hregisters r hr)

theorem slot_eq {k : Nat} (hk : k < cx.layout.size) :
    cx.pre.slot k = .ok (.canonical Names.ownHeap k cx.width) := by
  have hslot : cx.pre.heap[k]? = some (.canonical Names.ownHeap k cx.width) := by
    simp [pre, State.canonical, canonicalHeap, hk]
  rw [State.slot, hslot]

/-- Under a valuation that gives the canonical variables the values of a state, the registers have
these values. -/
theorem eval_register_of_denotes {env : Valuation} {value : StateValue}
    (h : cx.pre.Denotes env value) {r : Nat} {cell : CellValue}
    (hcell : value.registers[r]? = some cell) :
    (Cell.register r cx.width).eval env = some cell := by
  obtain ⟨register, hregister, heval⟩ := exists_getElem?_of_map_eq h.registers hcell
  rwa [(eq_register_of_pre hregister).2] at heval

theorem eval_slot_of_denotes {env : Valuation} {value : StateValue}
    (h : cx.pre.Denotes env value) {k : Nat} {slot : SlotValue}
    (hslot : value.heap[k]? = some slot) :
    (HeapSlot.canonical Names.ownHeap k cx.width).eval env = some slot := by
  obtain ⟨found, hfound, heval⟩ := exists_getElem?_of_map_eq h.heap hslot
  simp only [pre, State.canonical, canonicalHeap, List.getElem?_map] at hfound
  obtain ⟨i, hi, rfl⟩ := Option.map_eq_some_iff.mp hfound
  obtain ⟨hk, rfl⟩ := List.getElem?_eq_some_iff.mp hi
  rwa [List.getElem_range] at heval

/-! ## The clauses of a lift -/

/-- The clause that writes a field of a site to the global heap. -/
def flushClause (cx : StepContext) (guards : List Formula) (site : AllocationSite)
    (field : FieldId) (k : Nat) : Clause :=
  let header := HeapSlot.canonical Names.ownHeap site.headerSlot cx.width
  let slot := HeapSlot.canonical Names.ownHeap k cx.width
  cx.derive (guards ++ [header.free.negate])
    (GlobalHeap.object (cx.idLiteral site.classId) (cx.idLiteral site.id) (cx.idLiteral field)
      slot.cell.value slot.cell.high slot.cell.blocked)

/-- Some clauses lift under some guards: they go on with a state, and they write all fields of
all sites to the global heap. -/
structure Lifts (cx : StepContext) (guards : List Formula) (post : State)
    (clauses : List Clause) : Prop where
  step : cx.step guards post ∈ clauses
  flush : ∀ site ∈ cx.layout.sites, ∀ i field primitive,
    site.fields[i]? = some (field, primitive) →
      cx.flushClause guards site field (site.offset + i) ∈ clauses

theorem Lifts.mono {guards : List Formula} {post : State} {clauses more : List Clause}
    (h : cx.Lifts guards post clauses) (hsub : ∀ clause ∈ clauses, clause ∈ more) :
    cx.Lifts guards post more :=
  ⟨hsub _ h.step, fun site hsite i field primitive hfield =>
    hsub _ (h.flush site hsite i field primitive hfield)⟩

variable (hlayout : cx.layout.Registered)

include hlayout

theorem exists_flushSite (guards : List Formula) {site : AllocationSite}
    (hsite : site ∈ cx.layout.sites) :
    ∃ clauses, flushSite cx.width site (cx.body guards) cx.pre = .ok clauses ∧
      ∀ i field primitive, site.fields[i]? = some (field, primitive) →
        cx.flushClause guards site field (site.offset + i) ∈ clauses := by
  have hheader := slot_eq (hlayout.headerSlot_lt hsite)
  unfold flushSite
  simp only [hheader, Bind.bind, Except.bind]
  by_cases hfields : site.hasLayout
  · rw [if_pos hfields]
    refine ⟨(site.fields.zip site.fieldSlots).map fun entry =>
      cx.flushClause guards site entry.1.1 entry.2, ?_, fun i field primitive hfield => ?_⟩
    · rw [mapM_eq_ok_iff, List.map_map]
      refine List.map_congr_left fun entry hentry => ?_
      -- the slots of the fields are consecutive, and all of them are in the heap
      rw [slot_eq (hlayout.lt_of_mem_fieldSlots hsite (List.of_mem_zip hentry).2)]
      rfl
    · refine List.mem_map.mpr ⟨((field, primitive), site.offset + i), ?_, rfl⟩
      obtain ⟨hi, -⟩ := List.getElem?_eq_some_iff.mp hfield
      refine List.mem_of_getElem? (i := i) ?_
      rw [List.getElem?_zip_eq_some]
      exact ⟨hfield, by simp [AllocationSite.fieldSlots, AllocationSite.size, hi]⟩
  · rw [if_neg hfields]
    refine ⟨_, rfl, fun i field primitive hfield => ?_⟩
    have hnone : site.fields = [] := by simpa [AllocationSite.hasLayout] using hfields
    rw [hnone] at hfield
    cases hfield

theorem exists_lift {guards : List Formula} {update : State → Except Error State} {post : State}
    (hpost : update (cx.pre.promote cx.layout cx.width cx.shape.numRegisters) = .ok post) :
    ∃ clauses, cx.lift guards update = .ok clauses ∧ cx.Lifts guards post clauses := by
  obtain ⟨flushed, hflushed, hmem⟩ := exists_mapM_eq_ok fun site hsite => by
    obtain ⟨clauses, hclauses, -⟩ := exists_flushSite hlayout guards hsite
    exact ⟨clauses, hclauses⟩
  refine ⟨flushed.flatten ++ [cx.step guards post], ?_, ?_,
    fun site hsite i field primitive hfield => ?_⟩
  · simp only [lift, flushAll, hflushed, hpost, Bind.bind, Except.bind]
    rfl
  · exact List.mem_append_right _ (List.mem_singleton_self _)
  · obtain ⟨clauses, hclauses, hin⟩ := hmem site hsite
    obtain ⟨listed, hlisted, hfields⟩ := exists_flushSite hlayout guards hsite
    cases Except.ok.inj (hlisted.symm.trans hin)
    exact List.mem_append_left _
      (List.mem_flatten.mpr ⟨_, hclauses, hfields i field primitive hfield⟩)

omit hlayout

/-! ## What a lift derives -/

theorem denotes_object {env : Valuation} {slot : HeapSlot} {value : SlotValue}
    (hslot : slot.eval env = some value) (classId : ClassId) (id : InstanceId) (field : FieldId) :
    (GlobalHeap.object (cx.idLiteral classId) (cx.idLiteral id) (cx.idLiteral field)
      slot.cell.value slot.cell.high slot.cell.blocked).Denotes env
        (objectFact cx.width classId id field value.cell) :=
  GlobalHeap.denotes_object hslot cx.width classId id field

/-- The guards of a clause hold in a state. -/
def Enables (cx : StepContext) (before : StateValue) (guards : List Formula) : Prop :=
  ∀ guard ∈ guards, guard.Sorted cx.width ∧ guard.eval (stateValuation before) = some true

variable {before : StateValue} {clauses : List Clause} {facts : Fact → Prop}

theorem enables_nil : cx.Enables before [] := by
  simp [Enables]

theorem Enables.concat {guards : List Formula} (h : cx.Enables before guards) {guard : Formula}
    (hsorted : guard.Sorted cx.width) (htrue : guard.eval (stateValuation before) = some true) :
    cx.Enables before (guards ++ [guard]) :=
  List.forall_mem_append.mpr ⟨h, List.forall_mem_singleton.mpr ⟨hsorted, htrue⟩⟩

/-- A clause whose guards hold derives its head from a state, under every valuation that gives the
canonical variables the values of the state. -/
theorem derives_of_denotes {env : Valuation} (hpre : cx.pre.Denotes env before)
    (hadmits : ∀ {vars : List (String × TermSort)}, Names.Respected cx.width vars →
      env.Admits vars)
    (hemitted : ∀ clause ∈ (Emission.ofClauses clauses).clauses, cx.Emitted clause)
    (hmodels : Models (Emission.ofClauses clauses).clauses facts)
    (hbefore : facts (pointFact cx.point before)) {guards : List Formula} {head : Atom}
    (hclause : cx.derive guards head ∈ clauses)
    (hguards : ∀ guard ∈ guards, guard.Sorted cx.width ∧ guard.eval env = some true) {fact : Fact}
    (hhead : head.Denotes env fact) : facts fact := by
  -- the clause is not dropped: the applied relation is undecided and the guards are true
  have hkept : (cx.derive guards head).isVacuous = false := by
    refine Clause.isVacuous_eq_false env
      (List.forall_mem_cons.mpr ⟨?_, fun guard hguard => ?_⟩)
    · rw [Atom.toFormula, Formula.eval]
      decide
    · rw [(hguards guard hguard).2]
      decide
  have hmem : cx.derive guards head ∈ (Emission.ofClauses clauses).clauses :=
    List.mem_filter.mpr ⟨hclause, by rw [hkept]; rfl⟩
  refine hmodels _ hmem env fact (hadmits (hemitted _ hmem).respected)
    (List.forall_mem_cons.mpr ⟨?_, fun guard hguard => ?_⟩) hhead
  · exact Formula.holds_atom.mpr ⟨_, hbefore, denotes_pointAtom_iff.mpr ⟨before, hpre, rfl⟩⟩
  · obtain ⟨hsorted, htrue⟩ := hguards guard hguard
    exact (Formula.holds_iff_eval guard hsorted.applications).mpr htrue

/-- A clause whose guards hold in a state derives its head from it. -/
theorem Fits.derives (hfits : cx.Fits before)
    (hemitted : ∀ clause ∈ (Emission.ofClauses clauses).clauses, cx.Emitted clause)
    (hmodels : Models (Emission.ofClauses clauses).clauses facts)
    (hbefore : facts (pointFact cx.point before)) {guards : List Formula} {head : Atom}
    (hclause : cx.derive guards head ∈ clauses)
    (hguards : cx.Enables before guards) {fact : Fact}
    (hhead : head.Denotes (stateValuation before) fact) : facts fact :=
  derives_of_denotes hfits.denotes_pre hfits.inRange.admits hemitted hmodels hbefore hclause hguards
    hhead

/-- Some clauses lift in a state: the guards hold, and they go on with another state. -/
def LiftsTo (cx : StepContext) (before after : StateValue) (clauses : List Clause) : Prop :=
  ∃ guards post, cx.Lifts guards post clauses ∧ cx.Enables before guards ∧
    post.Denotes (stateValuation before) after

variable {after : StateValue}

theorem LiftsTo.mono {more : List Clause} (h : cx.LiftsTo before after clauses)
    (hsub : ∀ clause ∈ clauses, clause ∈ more) : cx.LiftsTo before after more := by
  obtain ⟨guards, post, hlifts, hguards, hpost⟩ := h
  exact ⟨guards, post, hlifts.mono hsub, hguards, hpost⟩

/-- A lift goes on, and everything that was in the local heap is on the global one. -/
theorem LiftsTo.derives (h : cx.LiftsTo before after clauses) (hlayout : cx.layout.Registered)
    (hfits : cx.Fits before)
    (hemitted : ∀ clause ∈ (Emission.ofClauses clauses).clauses, cx.Emitted clause)
    (hmodels : Models (Emission.ofClauses clauses).clauses facts)
    (hbefore : facts (pointFact cx.point before)) :
    facts (pointFact (cx.pointAt cx.nextPc) after) ∧
      ∀ site ∈ cx.layout.sites, ∀ header, before.heap[site.headerSlot]? = some header →
        header.free = false → ∀ i field primitive, site.fields[i]? = some (field, primitive) →
          ∃ slot, before.heap[site.offset + i]? = some slot ∧
            facts (objectFact cx.width site.classId site.id field slot.cell) := by
  obtain ⟨guards, post, hlifts, hguards, hpost⟩ := h
  constructor
  · exact hfits.derives hemitted hmodels hbefore hlifts.step hguards
      (denotes_pointAtom_iff.mpr ⟨after, hpost, rfl⟩)
  · intro site hsite header hheader hoccupied i field primitive hfield
    obtain ⟨hi, -⟩ := List.getElem?_eq_some_iff.mp hfield
    have hslot := hlayout.fieldSlot_lt hsite hi
    rw [← hfits.heap_length] at hslot
    refine ⟨_, List.getElem?_eq_getElem hslot, ?_⟩
    obtain ⟨-, hfree⟩ := HeapSlot.eval_eq_some_iff.mp (eval_slot_stateValuation hheader cx.width)
    have hnotFree : (HeapSlot.canonical Names.ownHeap site.headerSlot cx.width).free.negate.eval
        (stateValuation before) = some true := by
      rw [Formula.eval_negate, hfree, hoccupied]
      rfl
    exact hfits.derives hemitted hmodels hbefore
      (hlifts.flush site hsite i field primitive hfield)
      (hguards.concat (HeapSlot.sorted_canonical Names.isHeap_ownHeap _).free.negate hnotFree)
      (denotes_object (eval_slot_stateValuation (List.getElem?_eq_getElem hslot) cx.width) _ _ _)

end StepContext

end DalvikHorn
