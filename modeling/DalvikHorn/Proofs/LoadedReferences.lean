import DalvikHorn.Proofs.LibraryStores

/-!
# References that are loaded from local objects

A register is stored into a field of a local object and loaded again.  The value and the
label come back, and a reference to the global heap is still one: what is stored through
it afterwards is recorded.  A reference to the local heap comes back without its flag,
and a store through it is lost (`StepContext.reference_through_object`).

## Strategy

* **One instruction.**  The clauses of a store and of a load for one site are found in
  what their handlers emit (`exists_put`, `exists_get`), and derive the states
  `StateValue.put` and `StateValue.get`.
* **Nothing else.**  Every clause of a store but the plain step is guarded by a flag of
  the object.  When both flags are off, the states that differ in labels only are closed
  under its clauses (`models_unrecorded`).
-/

namespace DalvikHorn

/-! ## States -/

namespace StateValue

/-- A state after a cell has been stored into a slot; the label of the holder covers that of the
cell. -/
def put (state : StateValue) (k : Nat) (cell : CellValue) (holder : Nat) : StateValue :=
  { state with heap := state.heap.set k ⟨cell, false⟩ }.raise holder cell.high

/-- A state after a cell has been loaded from a slot.  The local flag is not loaded. -/
def get (state : StateValue) (cell : CellValue) (destination : Nat) : StateValue :=
  { state with registers := state.registers.set destination { cell with isLocal := false } }

/-- A state after a cell has been stored into a slot and loaded from it again. -/
def passed (state : StateValue) (k : Nat) (cell : CellValue) (holder destination : Nat) :
    StateValue :=
  (state.put k cell holder).get cell destination

variable {width : Nat} {state : StateValue}

theorem InRange.raise (h : state.InRange width) (r : Nat) (raised : Bool) :
    (state.raise r raised).InRange width where
  registers := by
    intro cell hcell
    obtain ⟨slot, hslot⟩ := List.mem_iff_getElem?.mp hcell
    rw [(state.raises_raise r raised).registers] at hslot
    obtain ⟨old, hold, rfl⟩ := Option.map_eq_some_iff.mp hslot
    exact h.registers old (List.mem_of_getElem? hold)
  heap := h.heap

theorem InRange.put (h : state.InRange width) {cell : CellValue}
    (hcell : cell.value < valueCount width) (k holder : Nat) :
    (state.put k cell holder).InRange width := by
  apply InRange.raise
  refine ⟨h.registers, fun slot hslot => ?_⟩
  rcases List.mem_or_eq_of_mem_set hslot with hold | hnew
  · exact h.heap slot hold
  · exact hnew ▸ hcell

theorem InRange.get (h : state.InRange width) {cell : CellValue}
    (hcell : cell.value < valueCount width) (destination : Nat) :
    (state.get cell destination).InRange width := by
  refine ⟨fun found hfound => ?_, h.heap⟩
  rcases List.mem_or_eq_of_mem_set hfound with hold | hnew
  · exact h.registers found hold
  · exact hnew ▸ hcell

end StateValue

theorem State.Denotes.setSlot {env : Valuation} {state : State} {value : StateValue}
    (h : state.Denotes env value) {k : Nat} {slot : HeapSlot} {new : SlotValue}
    (hk : k < value.heap.length) (hslot : slot.eval env = some new) :
    ∃ post, state.setSlot k slot = .ok post ∧
      post.Denotes env { value with heap := value.heap.set k new } := by
  have hlength : k < state.heap.length := length_eq_of_map_eq h.heap ▸ hk
  refine ⟨_, if_pos hlength, h.registers, ?_⟩
  rw [List.map_set, List.map_set, h.heap, hslot]

theorem State.taint_eq {state : State} {r : Nat} {cell : Cell}
    (hcell : state.registers[r]? = some cell) (taint : Formula) :
    state.taint r taint =
      .ok { state with registers := state.registers.set r (cell.taint taint) } := by
  obtain ⟨hr, -⟩ := List.getElem?_eq_some_iff.mp hcell
  rw [State.taint, State.register, hcell]
  exact if_pos hr

namespace StepContext

variable {cx : StepContext} {before : StateValue}

/-! ## Instructions -/

/-- The instruction stores a register into a field of the object in another one. -/
structure PutsField (cx : StepContext) (source object : UInt32) (field : FieldRef) : Prop where
  opcode_eq : cx.instruction.opcode = .instancePut
  source_eq : cx.instruction.registers[0]? = some source
  object_eq : cx.instruction.registers[1]? = some object
  field_eq : cx.fieldReference = .ok field
  source_lt : source.toNat < cx.shape.slotCount
  object_lt : object.toNat < cx.shape.slotCount

/-- The instruction loads a register from a field of the object in another one. -/
structure GetsField (cx : StepContext) (destination object : UInt32) (field : FieldRef) :
    Prop where
  opcode_eq : cx.instruction.opcode = .instanceGet
  destination_eq : cx.instruction.registers[0]? = some destination
  object_eq : cx.instruction.registers[1]? = some object
  field_eq : cx.fieldReference = .ok field
  destination_lt : destination.toNat < cx.shape.slotCount
  object_lt : object.toNat < cx.shape.slotCount

/-- An instruction is followed by another one of the same method. -/
structure Precedes (first second : StepContext) : Prop where
  env_eq : second.env = first.env
  owner_eq : second.owner = first.owner
  method_eq : second.method = first.method
  pc_eq : second.instruction.pc = first.nextPc

theorem Precedes.point_eq {first second : StepContext} (h : first.Precedes second) :
    second.point = first.pointAt first.nextPc := by
  rw [point, pointAt, h.owner_eq, h.method_eq, h.pc_eq, pointAt]

theorem Precedes.layout_eq {first second : StepContext} (h : first.Precedes second) :
    second.layout = first.layout := by
  rw [layout, h.env_eq, layout]

theorem Precedes.width_eq {first second : StepContext} (h : first.Precedes second) :
    second.width = first.width := by
  rw [width, h.env_eq, width]

theorem Precedes.shape_eq {first second : StepContext} (h : first.Precedes second) :
    second.shape = first.shape := by
  rw [shape, h.method_eq, shape]

/-- A register refers to the object of a site: it is local and holds its identifier. -/
def HoldsSite (cx : StepContext) (state : StateValue) (r : Nat) (site : AllocationSite) : Prop :=
  ∃ object, state.registers[r]? = some object ∧ object.isLocal = true ∧
    object.value = twosComplement site.id.toInt cx.width

theorem HoldsSite.enables {r : Nat} {site : AllocationSite} (h : cx.HoldsSite before r site) :
    cx.Enables before (cx.refersTo (.register r cx.width) site) := by
  obtain ⟨object, hobject, hlocal, hid⟩ := h
  obtain ⟨hvalue, -, hflag, -⟩ :=
    Cell.eval_eq_some_iff.mp (eval_register_stateValuation hobject cx.width)
  have hsorted : (Cell.register r cx.width).Sorted cx.width := Cell.sorted_register r
  have hsame : ((Cell.register r cx.width).value.eqTo (cx.idLiteral site.id)).eval
      (stateValuation before) = some true := by
    rw [BvExpr.eqTo, Formula.eval, hvalue, idLiteral, GlobalHeap.idLiteral, BvExpr.ofInt,
      BvExpr.eval, hid]
    simp [BvCompare.apply]
  rw [hlocal] at hflag
  exact (enables_nil.concat hsorted.isLocal hflag).concat
    (hsorted.value.eqTo (sorted_idLiteral _)) hsame

/-- The label of the object that is stored into may be raised. -/
theorem HoldsSite.put {r : Nat} {site : AllocationSite} (h : cx.HoldsSite before r site) (k : Nat)
    (cell : CellValue) (holder : Nat) : cx.HoldsSite (before.put k cell holder) r site := by
  obtain ⟨object, hobject, hlocal, hid⟩ := h
  have hraises := StateValue.raises_raise
    { before with heap := before.heap.set k ⟨cell, false⟩ } holder cell.high
  exact ⟨_, (hraises.registers r).trans (congrArg (Option.map _) hobject), hlocal, hid⟩

/-! ## Loads -/

theorem assign_eq {r : UInt32} (hr : r.toNat < cx.shape.slotCount) (guards : List Formula)
    (cell : Cell) :
    cx.assign r guards cell =
      .ok [cx.step guards { cx.pre with registers := cx.pre.registers.set r.toNat cell }] := by
  have hlength : r.toNat < cx.pre.registers.length := cx.sorted_pre.registers_length ▸ hr
  rw [assign, State.set, if_pos hlength]
  rfl

/-- The clause that loads a register from the slot of a site. -/
def loadClause (cx : StepContext) (destination object : UInt32) (entry : AllocationSite × Nat) :
    Clause :=
  cx.step (cx.refersTo (.register object.toNat cx.width) entry.1)
    { cx.pre with
      registers := cx.pre.registers.set destination.toNat
        { (HeapSlot.canonical Names.ownHeap entry.2 cx.width).cell with isLocal := .ff } }

theorem denotes_get {env : Valuation} (hstate : cx.pre.Denotes env before) (r : Nat) {k : Nat}
    {slot : SlotValue} (hslot : before.heap[k]? = some slot) :
    State.Denotes env
      { cx.pre with
        registers := cx.pre.registers.set r
          { (HeapSlot.canonical Names.ownHeap k cx.width).cell with isLocal := .ff } }
      (before.get slot.cell r) := by
  obtain ⟨hcell, -⟩ := HeapSlot.eval_eq_some_iff.mp (eval_slot_of_denotes hstate hslot)
  obtain ⟨hvalue, hhigh, -, hglobal⟩ := Cell.eval_eq_some_iff.mp hcell
  have hloaded : Cell.eval env
      { (HeapSlot.canonical Names.ownHeap k cx.width).cell with isLocal := .ff } =
        some { slot.cell with isLocal := false } :=
    Cell.eval_eq_some_iff.mpr ⟨hvalue, hhigh, rfl, hglobal⟩
  refine ⟨?_, hstate.heap⟩
  rw [List.map_set, hstate.registers, hloaded, StateValue.get, List.map_set]

/-- A load has a clause for the global heap and one for each site with the field. -/
theorem exists_compileInstanceGet (hlayout : cx.layout.Registered) {destination object : UInt32}
    {field : FieldRef} (hget : cx.GetsField destination object field) :
    ∃ fromGlobal, cx.compileInstanceGet = .ok (fromGlobal ++
      (cx.layout.sitesWithField field.fieldId).map (cx.loadClause destination object)) := by
  have hlocal : ((cx.layout.sitesWithField field.fieldId).mapM fun entry => do
      let slot ← cx.pre.slot entry.2
      cx.assign destination (cx.refersTo (.register object.toNat cx.width) entry.1)
        { slot.cell with isLocal := .ff }) =
      Except.ok ((cx.layout.sitesWithField field.fieldId).map fun entry =>
        [cx.loadClause destination object entry]) := by
    rw [mapM_eq_ok_iff, List.map_map]
    refine List.map_congr_left fun entry hentry => ?_
    rw [slot_eq (hlayout.lt_of_mem_sitesWithField hentry)]
    exact assign_eq hget.destination_lt _ _
  simp only [compileInstanceGet, operand_eq hget.object_eq hget.object_lt,
    instructionRegister_eq hget.destination_eq, hget.field_eq, assign_eq hget.destination_lt,
    Bind.bind, Except.bind] at hlocal ⊢
  simp only [hlocal, ← List.flatMap_def, ← List.map_eq_flatMap]
  exact ⟨_, rfl⟩

theorem GetsField.compileOrSkip_eq {destination object : UInt32} {field : FieldRef}
    (hget : cx.GetsField destination object field) {clauses : List Clause}
    (h : cx.compileInstanceGet = .ok clauses) : cx.compileOrSkip = .ok (.ofClauses clauses) := by
  rw [compileOrSkip, compile, hget.opcode_eq, h]
  rfl

/-- The clauses of a load: there is one for the slot of each site. -/
def Gets (cx : StepContext) (destination object : UInt32) (field : FieldRef)
    (before : StateValue) (clauses : List Clause) : Prop :=
  ∀ site k, (site, k) ∈ cx.layout.sitesWithField field.fieldId → ∀ slot,
    before.heap[k]? = some slot → ∃ post,
      cx.step (cx.refersTo (.register object.toNat cx.width) site) post ∈ clauses ∧
        post.Denotes (stateValuation before) (before.get slot.cell destination.toNat)

/-- A load is compiled, and has these clauses. -/
theorem exists_get (hlayout : cx.layout.Registered) (hfits : cx.Fits before)
    {destination object : UInt32} {field : FieldRef}
    (hget : cx.GetsField destination object field) :
    ∃ clauses, cx.compileOrSkip = .ok (.ofClauses clauses) ∧
      cx.Gets destination object field before clauses := by
  obtain ⟨fromGlobal, hhandler⟩ := exists_compileInstanceGet hlayout hget
  refine ⟨_, hget.compileOrSkip_eq hhandler, fun site k hsite slot hslot => ⟨_, ?_,
    denotes_get hfits.denotes_pre _ hslot⟩⟩
  exact List.mem_append_right _ (List.mem_map.mpr ⟨(site, k), hsite, rfl⟩)

/-! ## Stores -/

/-- The clauses of a store: one goes on with the state as it is, one writes to the global heap, the
others are guarded by a flag of the object, and there is one for the slot of each site. -/
structure Puts (cx : StepContext) (source object : UInt32) (field : FieldRef)
    (before : StateValue) (clauses : List Clause) : Prop where
  guarded : ∀ clause ∈ clauses,
    (∃ post, cx.pre.taint object.toNat (Cell.register source.toNat cx.width).high = .ok post ∧
      clause = cx.step [] post) ∨
    cx.body [(Cell.register object.toNat cx.width).isGlobal] ⊆ clause.body ∨
    cx.body [(Cell.register object.toNat cx.width).isLocal] ⊆ clause.body
  toGlobal : cx.derive [(Cell.register object.toNat cx.width).isGlobal]
    (GlobalHeap.object (cx.idLiteral field.classId) (Cell.register object.toNat cx.width).value
      (cx.idLiteral field.fieldId) (Cell.register source.toNat cx.width).value
      (Cell.register source.toNat cx.width).high
      (Cell.register source.toNat cx.width).blocked) ∈ clauses
  toLocal : ∀ site k, (site, k) ∈ cx.layout.sitesWithField field.fieldId → ∀ cell,
    before.registers[source.toNat]? = some cell → ∃ post,
      cx.step (cx.refersTo (.register object.toNat cx.width) site) post ∈ clauses ∧
        post.Denotes (stateValuation before) (before.put k cell object.toNat)

/-- All clauses of a lift have its guards. -/
theorem body_subset_of_liftIfLocal (r : UInt32) (guards : List Formula)
    (update : State → Except Error State) :
    Ensures (cx.liftIfLocal r guards update) fun clauses =>
      ∀ clause ∈ clauses, cx.body guards ⊆ clause.body := by
  refine .skip fun cell => ?_
  -- the guard of the lift comes behind those of the body
  have hbody : cx.body guards ⊆ cx.body (guards ++ [cell.isLocal]) :=
    List.cons_subset_cons _ (List.subset_append_left _ _)
  have hfact : ∀ more : List Formula,
      cx.body guards ⊆ cx.body (guards ++ [cell.isLocal]) ++ more :=
    fun more => List.Subset.trans hbody (List.subset_append_left _ more)
  have hsite : ∀ site ∈ cx.layout.sites,
      Ensures (flushSite cx.width site (cx.body (guards ++ [cell.isLocal])) cx.pre) fun clauses =>
        ∀ clause ∈ clauses, cx.body guards ⊆ clause.body := by
    intro site _
    refine .skip fun header => ?_
    dsimp only
    -- a site with fields has a fact for each of them, and one without has one fact
    split
    · refine fun clauses hclauses => (Ensures.mapM ?_ clauses hclauses).2
      intro entry _
      exact .skip fun slot => .pure (hfact _)
    · exact .pure (List.forall_mem_singleton.mpr (hfact _))
  have hflushed : Ensures (flushAll cx.layout cx.width (cx.body (guards ++ [cell.isLocal])) cx.pre)
      fun clauses => ∀ clause ∈ clauses, cx.body guards ⊆ clause.body :=
    .bind (.mapM_flatten hsite) fun _ hfacts => .pure hfacts
  refine .bind hflushed fun facts hfacts => .skip fun post => .pure ?_
  exact List.forall_mem_append.mpr ⟨hfacts, List.forall_mem_singleton.mpr hbody⟩

/-- The clause that stores a register into the slot of a site. -/
def storeClause (cx : StepContext) (source object : UInt32) (entry : AllocationSite × Nat) :
    Clause :=
  cx.step (cx.refersTo (.register object.toNat cx.width) entry.1)
    { registers := cx.pre.registers.set object.toNat
        ((Cell.register object.toNat cx.width).taint (Cell.register source.toNat cx.width).high)
      heap := cx.pre.heap.set entry.2 { cell := .register source.toNat cx.width, free := .ff } }

/-- A register of the state before is also tainted when a slot has been written. -/
theorem taint_setSlot {r : Nat} (hr : r < cx.shape.slotCount) (k : Nat) (slot : HeapSlot)
    (taint : Formula) :
    State.taint { cx.pre with heap := cx.pre.heap.set k slot } r taint =
      .ok { registers := cx.pre.registers.set r ((Cell.register r cx.width).taint taint)
            heap := cx.pre.heap.set k slot } :=
  @State.taint_eq { cx.pre with heap := cx.pre.heap.set k slot } r _ (getElem?_pre hr) taint

theorem denotes_put {env : Valuation} (hstate : cx.pre.Denotes env before) {source object k : Nat}
    (hobject : object < cx.shape.slotCount) (hk : k < cx.layout.size) {cell : CellValue}
    (hcell : before.registers[source]? = some cell) :
    State.Denotes env
      { registers := cx.pre.registers.set object
          ((Cell.register object cx.width).taint (Cell.register source cx.width).high)
        heap := cx.pre.heap.set k { cell := .register source cx.width, free := .ff } }
      (before.put k cell object) := by
  have hvalue := eval_register_of_denotes hstate hcell
  obtain ⟨-, hhigh, -⟩ := Cell.eval_eq_some_iff.mp hvalue
  have hslot : HeapSlot.eval env { cell := .register source cx.width, free := .ff } =
      some ⟨cell, false⟩ :=
    HeapSlot.eval_eq_some_iff.mpr ⟨hvalue, rfl⟩
  have hheap : k < cx.pre.heap.length := cx.sorted_pre.heap_length ▸ hk
  have hregister : object < cx.pre.registers.length := cx.sorted_pre.registers_length ▸ hobject
  obtain ⟨stored, hstored, hdenotes⟩ :=
    hstate.setSlot (length_eq_of_map_eq hstate.heap ▸ hheap) hslot
  cases (if_pos hheap : cx.pre.setSlot k _ = _).symm.trans hstored
  obtain ⟨post, hpost, hfinal⟩ :=
    hdenotes.taint (length_eq_of_map_eq hstate.registers ▸ hregister) hhigh
  cases (taint_setSlot hobject _ _ _).symm.trans hpost
  exact hfinal

/-- The lift of a store into an object on the global heap. -/
theorem exists_liftStored (hlayout : cx.layout.Registered) {source object : UInt32}
    (hsource : source.toNat < cx.shape.slotCount) (hobject : object.toNat < cx.shape.slotCount) :
    ∃ lifted, cx.liftIfLocal source [(Cell.register object.toNat cx.width).isGlobal]
      (State.taint · object.toNat (Cell.register source.toNat cx.width).high) = .ok lifted := by
  have hregister : object.toNat <
      (cx.pre.promote cx.layout cx.width cx.shape.numRegisters).registers.length := by
    simpa [State.promote, State.withHeap, State.mapRegisters, cx.sorted_pre.registers_length]
      using hobject
  obtain ⟨lifted, hlifted, -⟩ := @exists_lift cx hlayout
    [(Cell.register object.toNat cx.width).isGlobal, (Cell.register source.toNat cx.width).isLocal]
    (State.taint · object.toNat (Cell.register source.toNat cx.width).high) _
    (State.taint_eq (List.getElem?_eq_getElem hregister) _)
  rw [liftIfLocal, register_eq hsource]
  exact ⟨lifted, hlifted⟩

/-- A store has a step that ignores it, a clause for the global heap, a lift, and a clause for each
site with the field. -/
theorem exists_compileInstancePut (hlayout : cx.layout.Registered) {source object : UInt32}
    {field : FieldRef} (hput : cx.PutsField source object field) :
    ∃ plain lifted,
      cx.pre.taint object.toNat (Cell.register source.toNat cx.width).high = .ok plain ∧
      cx.liftIfLocal source [(Cell.register object.toNat cx.width).isGlobal]
        (State.taint · object.toNat (Cell.register source.toNat cx.width).high) = .ok lifted ∧
      cx.compileInstancePut = .ok (cx.step [] plain ::
        cx.derive [(Cell.register object.toNat cx.width).isGlobal]
          (GlobalHeap.object (cx.idLiteral field.classId)
            (Cell.register object.toNat cx.width).value (cx.idLiteral field.fieldId)
            (Cell.register source.toNat cx.width).value (Cell.register source.toNat cx.width).high
            (Cell.register source.toNat cx.width).blocked) :: lifted ++
        (cx.layout.sitesWithField field.fieldId).map (cx.storeClause source object)) := by
  have hsource := hput.source_lt
  have hobject := hput.object_lt
  have hplain := State.taint_eq (getElem?_pre hobject) (Cell.register source.toNat cx.width).high
  obtain ⟨lifted, hlifted⟩ := exists_liftStored hlayout hsource hobject
  -- each site of the field stores the source under its own guard
  have hlocal : ((cx.layout.sitesWithField field.fieldId).mapM fun entry => do
      let stored ← cx.pre.setSlot entry.2
        { cell := .register source.toNat cx.width, free := .ff }
      let post ← stored.taint object.toNat (Cell.register source.toNat cx.width).high
      return cx.step (cx.refersTo (.register object.toNat cx.width) entry.1) post) =
      Except.ok ((cx.layout.sitesWithField field.fieldId).map (cx.storeClause source object)) := by
    rw [mapM_eq_ok_iff, List.map_map]
    refine List.map_congr_left fun entry hentry => ?_
    have hlt : entry.2 < cx.pre.heap.length :=
      cx.sorted_pre.heap_length ▸ hlayout.lt_of_mem_sitesWithField hentry
    rw [State.setSlot, if_pos hlt]
    simp only [Bind.bind, Except.bind]
    rw [taint_setSlot hobject]
    rfl
  refine ⟨_, lifted, hplain, hlifted, ?_⟩
  simp only [compileInstancePut, operand_eq hput.source_eq hsource,
    operand_eq hput.object_eq hobject, instructionRegister_eq hput.source_eq,
    instructionRegister_eq hput.object_eq, hput.field_eq, hplain, hlifted, Bind.bind,
    Except.bind] at hlocal ⊢
  simp only [hlocal]
  rfl

theorem PutsField.compileOrSkip_eq {source object : UInt32} {field : FieldRef}
    (hput : cx.PutsField source object field) {clauses : List Clause}
    (h : cx.compileInstancePut = .ok clauses) : cx.compileOrSkip = .ok (.ofClauses clauses) := by
  rw [compileOrSkip, compile, hput.opcode_eq, h]
  rfl

/-- A store is compiled, and its clauses are known. -/
theorem exists_put (hlayout : cx.layout.Registered) (hfits : cx.Fits before)
    {source object : UInt32} {field : FieldRef} (hput : cx.PutsField source object field) :
    ∃ clauses, cx.compileOrSkip = .ok (.ofClauses clauses) ∧
      cx.Puts source object field before clauses := by
  obtain ⟨plain, lifted, hplain, hlifted, hhandler⟩ := exists_compileInstancePut hlayout hput
  refine ⟨_, hput.compileOrSkip_eq hhandler, ?_⟩
  constructor
  case guarded =>
    -- the clauses are the plain step, the fact, the lift and the stores into the sites
    intro clause hclause
    rcases List.mem_append.mp hclause with hclause | hlocal
    · rcases List.mem_cons.mp hclause with rfl | hclause
      · exact .inl ⟨plain, hplain, rfl⟩
      · refine .inr (.inl ?_)
        rcases List.mem_cons.mp hclause with rfl | hclause
        · exact List.Subset.refl _
        · exact body_subset_of_liftIfLocal source _ _ lifted hlifted clause hclause
    · obtain ⟨entry, -, rfl⟩ := List.mem_map.mp hlocal
      exact .inr (.inr (List.cons_subset_cons _ (List.subset_append_left _ [_])))
  case toGlobal =>
    exact List.mem_append_left _ (List.mem_cons_of_mem _ List.mem_cons_self)
  case toLocal =>
    intro site k hsite cell hcell
    exact ⟨_, List.mem_append_right _ (List.mem_map.mpr ⟨(site, k), hsite, rfl⟩),
      denotes_put hfits.denotes_pre hput.object_lt (hlayout.lt_of_mem_sitesWithField hsite) hcell⟩

/-! ## What the clauses derive -/

/-- Clauses that an instruction compiles to have one of the listed forms. -/
theorem emitted_of_compile {clauses : List Clause} (hopcode : cx.instruction.opcode ≠ .newInstance)
    (hcompile : cx.compileOrSkip = .ok (.ofClauses clauses)) :
    ∀ clause ∈ (Emission.ofClauses clauses).clauses, cx.Emitted clause := by
  obtain ⟨emission, hemission, hcontributes⟩ :=
    compileOrSkip_contributes (hasSite_of_opcode_ne hopcode)
  cases hcompile.symm.trans hemission
  exact hcontributes.clauses

theorem PutsField.opcode_ne {source object : UInt32} {field : FieldRef}
    (h : cx.PutsField source object field) : cx.instruction.opcode ≠ .newInstance := by
  rw [h.opcode_eq]
  decide

theorem GetsField.opcode_ne {destination object : UInt32} {field : FieldRef}
    (h : cx.GetsField destination object field) : cx.instruction.opcode ≠ .newInstance := by
  rw [h.opcode_eq]
  decide

section Derived

variable {site : AllocationSite} {k : Nat} {clauses : List Clause} {facts : Fact → Prop}

/-- A store into a local object goes on with the slot filled. -/
theorem Fits.derives_put (hfits : cx.Fits before) {source object : UInt32} {field : FieldRef}
    (hput : cx.PutsField source object field)
    (hcompile : cx.compileOrSkip = .ok (.ofClauses clauses))
    (hputs : cx.Puts source object field before clauses)
    (hsite : (site, k) ∈ cx.layout.sitesWithField field.fieldId)
    (hobject : cx.HoldsSite before object.toNat site) {cell : CellValue}
    (hcell : before.registers[source.toNat]? = some cell)
    (hmodels : Models (Emission.ofClauses clauses).clauses facts)
    (hbefore : facts (pointFact cx.point before)) :
    facts (pointFact (cx.pointAt cx.nextPc) (before.put k cell object.toNat)) := by
  obtain ⟨post, hclause, hdenotes⟩ := hputs.toLocal site k hsite cell hcell
  exact hfits.derives (emitted_of_compile hput.opcode_ne hcompile) hmodels hbefore hclause
    hobject.enables (denotes_pointAtom_iff.mpr ⟨_, hdenotes, rfl⟩)

/-- A load from a local object goes on with what the slot holds. -/
theorem Fits.derives_get (hfits : cx.Fits before) {destination object : UInt32} {field : FieldRef}
    (hget : cx.GetsField destination object field)
    (hcompile : cx.compileOrSkip = .ok (.ofClauses clauses))
    (hgets : cx.Gets destination object field before clauses)
    (hsite : (site, k) ∈ cx.layout.sitesWithField field.fieldId)
    (hobject : cx.HoldsSite before object.toNat site) {slot : SlotValue}
    (hslot : before.heap[k]? = some slot)
    (hmodels : Models (Emission.ofClauses clauses).clauses facts)
    (hbefore : facts (pointFact cx.point before)) :
    facts (pointFact (cx.pointAt cx.nextPc) (before.get slot.cell destination.toNat)) := by
  obtain ⟨post, hclause, hdenotes⟩ := hgets site k hsite slot hslot
  exact hfits.derives (emitted_of_compile hget.opcode_ne hcompile) hmodels hbefore hclause
    hobject.enables (denotes_pointAtom_iff.mpr ⟨_, hdenotes, rfl⟩)

/-- A store into an object on the global heap is a fact. -/
theorem Fits.derives_object (hfits : cx.Fits before) {source object : UInt32} {field : FieldRef}
    (hput : cx.PutsField source object field)
    (hcompile : cx.compileOrSkip = .ok (.ofClauses clauses))
    (hputs : cx.Puts source object field before clauses) {base : CellValue}
    (hbase : before.registers[object.toNat]? = some base) (hglobal : base.isGlobal = true)
    {id : InstanceId} (hid : base.value = twosComplement id.toInt cx.width) {cell : CellValue}
    (hcell : before.registers[source.toNat]? = some cell)
    (hmodels : Models (Emission.ofClauses clauses).clauses facts)
    (hbefore : facts (pointFact cx.point before)) :
    facts (objectFact cx.width field.classId id field.fieldId cell) := by
  obtain ⟨hobject, -, -, hflag⟩ :=
    Cell.eval_eq_some_iff.mp (eval_register_stateValuation hbase cx.width)
  obtain ⟨hvalue, hhigh, hlocal, hblocked⟩ :=
    Cell.eval_eq_some_iff.mp (eval_register_stateValuation hcell cx.width)
  rw [hglobal] at hflag
  have hguards : cx.Enables before [(Cell.register object.toNat cx.width).isGlobal] :=
    enables_nil.concat (Cell.sorted_register object.toNat).isGlobal hflag
  refine hfits.derives (emitted_of_compile hput.opcode_ne hcompile) hmodels hbefore
    hputs.toGlobal hguards ⟨rfl, ?_⟩
  have hreference : (Cell.register source.toNat cx.width).blocked.eval (stateValuation before) =
      some (cell.isLocal || cell.isGlobal) := by
    rw [Cell.blocked, Formula.eval_either, hlocal, hblocked]
    cases cell.isLocal <;> rfl
  simp [GlobalHeap.object, objectFact, Term.eval, hvalue, hhigh, hreference, hobject, hid,
    idLiteral, GlobalHeap.idLiteral, BvExpr.ofInt, BvExpr.eval]

end Derived

/-! ## Stores that are lost -/

/-- The facts of a state, up to labels that have been raised. -/
def Unrecorded (state : StateValue) (fact : Fact) : Prop :=
  ∃ position after raised, fact = pointFact position after ∧ state.Raises raised after

theorem unrecorded_self (position : ProgramPoint) (state : StateValue) :
    Unrecorded state (pointFact position state) :=
  ⟨position, state, _, rfl, state.raises_refl⟩

/-- When the object of a store has neither flag nothing but the state itself follows from the
clauses of the store. -/
theorem Puts.models_unrecorded {source object : UInt32} {field : FieldRef} {clauses : List Clause}
    (hputs : cx.Puts source object field before clauses)
    (hput : cx.PutsField source object field) {state : StateValue}
    (hlength : state.registers.length = cx.shape.slotCount) {base : CellValue}
    (hbase : state.registers[object.toNat]? = some base) (hlocal : base.isLocal = false)
    (hglobal : base.isGlobal = false) :
    Models (Emission.ofClauses clauses).clauses (Unrecorded state) := by
  intro clause hclause env fact _ hbody hhead
  have hguarded := hputs.guarded clause (Emission.mem_of_mem_ofClauses hclause)
  have hcurrent : cx.current.toFormula ∈ clause.body := by
    rcases hguarded with ⟨post, -, rfl⟩ | hbody | hbody
    · exact List.mem_cons_self
    · exact hbody List.mem_cons_self
    · exact hbody List.mem_cons_self
  -- the state that the clause starts from differs from the given one in labels only
  obtain ⟨premise, ⟨position, mid, raised, rfl, hraises⟩, hdenotes⟩ :=
    Formula.holds_atom.mp (hbody _ hcurrent)
  obtain ⟨value, hvalue, hsame⟩ := denotes_pointAtom_iff.mp hdenotes
  have hsize : mid.registers.length = value.registers.length := by
    rw [hraises.length_eq, hlength, length_eq_of_map_eq hvalue.registers,
      cx.sorted_pre.registers_length]
  obtain ⟨-, rfl⟩ := pointFact_injective hsize hsame
  have hobject := hraises.registers object.toNat
  rw [hbase, Option.map_some] at hobject
  obtain ⟨-, -, hnotLocal, hnotGlobal⟩ :=
    Cell.eval_eq_some_iff.mp (eval_register_of_denotes hvalue hobject)
  have hfalse : ∀ guard : Formula, guard.Sorted cx.width → guard.eval env = some false →
      ¬ cx.body [guard] ⊆ clause.body := by
    intro guard hsorted hoff hsub
    have hholds := hbody guard (hsub (List.mem_cons_of_mem _ List.mem_cons_self))
    rw [Formula.holds_iff_eval guard hsorted.applications, hoff] at hholds
    cases hholds
  have hsorted : (Cell.register object.toNat cx.width).Sorted cx.width := Cell.sorted_register _
  rcases hguarded with ⟨post, hpost, rfl⟩ | hguard | hguard
  · obtain ⟨after, hafter, rfl⟩ := denotes_pointAtom_iff.mp hhead
    have hslots : mid.registers.length = cx.shape.slotCount := hraises.length_eq.trans hlength
    have hsource := List.getElem?_eq_getElem (hslots ▸ hput.source_lt)
    obtain ⟨-, hhigh, -⟩ := Cell.eval_eq_some_iff.mp (eval_register_of_denotes hvalue hsource)
    obtain ⟨other, hother, htainted⟩ := hvalue.taint (hslots ▸ hput.object_lt) hhigh
    cases hother.symm.trans hpost
    rw [hafter.unique htainted]
    exact ⟨_, _, _, rfl, hraises.trans (mid.raises_raise _ _)⟩
  · rw [hglobal] at hnotGlobal
    exact absurd hguard (hfalse _ hsorted.isGlobal hnotGlobal)
  · rw [hlocal] at hnotLocal
    exact absurd hguard (hfalse _ hsorted.isLocal hnotLocal)

/-! ## A store, a load and a store -/

/-- A register is stored into a field of an object and loaded from it again, and another register is
stored into a field of what has been loaded. -/
structure StoresThrough (store load write : StepContext)
    (source object destination value : UInt32) (field loaded written : FieldRef) : Prop where
  loads_next : store.Precedes load
  writes_next : load.Precedes write
  stores : store.PutsField source object field
  loads : load.GetsField destination object loaded
  same_field : loaded.fieldId = field.fieldId
  writes : write.PutsField value destination written

theorem Precedes.fits {first second : StepContext} (h : first.Precedes second)
    (hfits : first.Fits before) : second.Fits before where
  registers_length := h.shape_eq ▸ hfits.registers_length
  heap_length := h.layout_eq ▸ hfits.heap_length
  inRange := h.width_eq ▸ hfits.inRange

theorem Fits.put (hfits : cx.Fits before) {cell : CellValue}
    (hcell : cell.value < valueCount cx.width) (k holder : Nat) :
    cx.Fits (before.put k cell holder) where
  registers_length := by
    rw [StateValue.put, StateValue.raise, List.length_modify]
    exact hfits.registers_length
  heap_length := by
    rw [StateValue.put, StateValue.raise, List.length_set]
    exact hfits.heap_length
  inRange := hfits.inRange.put hcell k holder

theorem Fits.get (hfits : cx.Fits before) {cell : CellValue}
    (hcell : cell.value < valueCount cx.width) (destination : Nat) :
    cx.Fits (before.get cell destination) where
  registers_length := by
    rw [StateValue.get, List.length_set]
    exact hfits.registers_length
  heap_length := hfits.heap_length
  inRange := hfits.inRange.get hcell destination

namespace StoresThrough

variable {store load write : StepContext} {source object destination value : UInt32}
  {field loaded written : FieldRef} {site : AllocationSite} {k : Nat} {stored : CellValue}

/-- The three instructions are compiled.  The state after the load follows from the one before the
store, and the clauses of the last store are known for it. -/
theorem exists_passed
    (h : StoresThrough store load write source object destination value field loaded written)
    (hlayout : store.layout.Registered) (hfits : store.Fits before)
    (hsite : (site, k) ∈ store.layout.sitesWithField field.fieldId)
    (hobject : store.HoldsSite before object.toNat site)
    (hstored : before.registers[source.toNat]? = some stored) :
    ∃ putting getting clauses, store.compileOrSkip = .ok putting ∧
      load.compileOrSkip = .ok getting ∧
      write.compileOrSkip = .ok (.ofClauses clauses) ∧
      (∀ facts : Fact → Prop, Models putting.clauses facts → Models getting.clauses facts →
        facts (pointFact store.point before) →
          facts (pointFact write.point (before.passed k stored object.toNat destination.toNat))) ∧
      write.Fits (before.passed k stored object.toNat destination.toNat) ∧
      (before.passed k stored object.toNat destination.toNat).registers[destination.toNat]? =
        some { stored with isLocal := false } ∧
      write.Puts value destination written
        (before.passed k stored object.toNat destination.toNat) clauses := by
  have hvalue := hfits.inRange.registers stored (List.mem_of_getElem? hstored)
  have hsite' : (site, k) ∈ load.layout.sitesWithField loaded.fieldId := by
    rwa [h.loads_next.layout_eq, h.same_field]
  obtain ⟨clauses, hputting, hputs⟩ := exists_put hlayout hfits h.stores
  -- the state after the store
  have hfits' : load.Fits (before.put k stored object.toNat) :=
    h.loads_next.fits (hfits.put hvalue k object.toNat)
  have hlayout' : load.layout.Registered := h.loads_next.layout_eq ▸ hlayout
  have hobject' : load.HoldsSite (before.put k stored object.toNat) object.toNat site := by
    rw [HoldsSite, h.loads_next.width_eq]
    exact hobject.put k stored object.toNat
  have hslot : (before.put k stored object.toNat).heap[k]? = some ⟨stored, false⟩ :=
    List.getElem?_set_self (hfits.heap_length ▸ hlayout.lt_of_mem_sitesWithField hsite)
  obtain ⟨clauses', hgetting, hgets⟩ := exists_get hlayout' hfits' h.loads
  -- the state after the load
  have hfits'' : write.Fits (before.passed k stored object.toNat destination.toNat) :=
    h.writes_next.fits (hfits'.get (h.loads_next.width_eq ▸ hvalue) destination.toNat)
  have hlayout'' : write.layout.Registered := h.writes_next.layout_eq ▸ hlayout'
  have hdestination : (before.passed k stored object.toNat destination.toNat).registers[
      destination.toNat]? = some { stored with isLocal := false } :=
    List.getElem?_set_self (hfits'.registers_length ▸ h.loads.destination_lt)
  obtain ⟨clauses'', hwriting, hwrites⟩ := exists_put hlayout'' hfits'' h.writes
  refine ⟨_, _, clauses'', hputting, hgetting, hwriting, ?_, hfits'', hdestination, hwrites⟩
  intro facts hstores hloads hbefore
  have hbetween := hfits.derives_put h.stores hputting hputs hsite hobject hstored hstores hbefore
  rw [← h.loads_next.point_eq] at hbetween
  rw [h.writes_next.point_eq]
  exact hfits'.derives_get h.loads hgetting hgets hsite' hobject' hslot hloads hbetween

end StoresThrough

/-- A register that is stored into a field of a local object and loaded again has its value, its
label and its global flag, but no local flag.  When it refers to the global heap the next store
through it is a fact, and otherwise nothing follows from the store but the state itself. -/
theorem reference_through_object {store load write : StepContext}
    {source object destination value : UInt32} {field loaded written : FieldRef}
    (hsteps : StoresThrough store load write source object destination value field loaded written)
    (hlayout : store.layout.Registered) (hfits : store.Fits before) {site : AllocationSite}
    {k : Nat} (hsite : (site, k) ∈ store.layout.sitesWithField field.fieldId)
    (hobject : store.HoldsSite before object.toNat site) {stored : CellValue}
    (hstored : before.registers[source.toNat]? = some stored) :
    ∃ putting getting writing, store.compileOrSkip = .ok putting ∧
      load.compileOrSkip = .ok getting ∧ write.compileOrSkip = .ok writing ∧
      ∃ after, after = before.passed k stored object.toNat destination.toNat ∧
        after.registers[destination.toNat]? = some { stored with isLocal := false } ∧
        (∀ facts : Fact → Prop, Models putting.clauses facts → Models getting.clauses facts →
          facts (pointFact store.point before) → facts (pointFact write.point after)) ∧
        (stored.isGlobal = true → ∀ id : InstanceId,
          stored.value = twosComplement id.toInt store.width → ∀ cell,
            after.registers[value.toNat]? = some cell → ∀ facts : Fact → Prop,
              Models writing.clauses facts → facts (pointFact write.point after) →
                facts (objectFact store.width written.classId id written.fieldId cell)) ∧
        (stored.isGlobal = false → ∃ facts : Fact → Prop, Models writing.clauses facts ∧
          facts (pointFact write.point after) ∧ ∀ fact, facts fact → Unrecorded after fact) := by
  obtain ⟨putting, getting, clauses, hputting, hgetting, hwriting, hafter, hfits', hdestination,
    hputs⟩ := hsteps.exists_passed hlayout hfits hsite hobject hstored
  refine ⟨putting, getting, _, hputting, hgetting, hwriting, _, rfl, hdestination, hafter, ?_, ?_⟩
  · intro hglobal id hid cell hcell facts hmodels hpoint
    have hwidth : write.width = store.width :=
      hsteps.writes_next.width_eq.trans hsteps.loads_next.width_eq
    rw [← hwidth] at hid ⊢
    exact hfits'.derives_object hsteps.writes hwriting hputs hdestination hglobal hid hcell hmodels
      hpoint
  · intro hglobal
    have hmodels :=
      hputs.models_unrecorded hsteps.writes hfits'.registers_length hdestination rfl hglobal
    exact ⟨_, hmodels, unrecorded_self _ _, fun fact hfact => hfact⟩

/-- A method that allocates two objects, stores the second one into a field of the first one, loads
it again and stores into its field. -/
def nesting : Program where
  classes :=
    [{ name := "La;"
       methods :=
         [{ name := "start()V", numRegisters := 4, numArguments := 0, isStatic := true,
            entryPoint := true
            instructions :=
              [{ pc := 0, mnemonic := "new-instance", registers := [0],
                 reference := some "Lb;" },
                { pc := 2, mnemonic := "new-instance", registers := [1],
                  reference := some "Lc;" },
                { pc := 4, mnemonic := "iput-object", registers := [1, 0],
                  reference := some "Lb;->f:Lc;" },
                { pc := 6, mnemonic := "iget-object", registers := [2, 0],
                  reference := some "Lb;->f:Lc;" },
                { pc := 8, mnemonic := "iput", registers := [3, 2],
                  reference := some "Lc;->x:I" },
                { pc := 10, mnemonic := "return-void" }] }] },
      { name := "Lb;", fields := [{ name := "f", type := "Lc;" }] },
      { name := "Lc;", fields := [{ name := "x", type := "I" }] }]

/-- An instruction of that method. -/
def nestingContext (pc nextPc : UInt32) (mnemonic : String) (registers : List UInt32)
    (reference : String) : StepContext where
  env := nesting.environment Program.sampleConfig {}
  owner := { name := "La;" }
  method := { name := "start()V", numRegisters := 4, numArguments := 0, isStatic := true }
  instruction := { pc, mnemonic, registers, reference := some reference }
  nextPc := nextPc
  allocation := 0

def nestingStore : StepContext := nestingContext 4 6 "iput-object" [1, 0] "Lb;->f:Lc;"

def nestingLoad : StepContext := nestingContext 6 8 "iget-object" [2, 0] "Lb;->f:Lc;"

def nestingWrite : StepContext := nestingContext 8 10 "iput" [3, 2] "Lc;->x:I"

/-- The state after both allocations, with a secret in register 3.  The second object may have
escaped. -/
def nestingState (escaped : Bool) : StateValue where
  registers :=
    [⟨2237463218, false, true, false⟩, ⟨2237463220, false, !escaped, escaped⟩,
      ⟨0, false, false, false⟩, ⟨5, true, false, false⟩, ⟨0, false, false, false⟩]
  heap := List.replicate 4 ⟨⟨0, false, false, false⟩, false⟩

def nestingField : FieldRef where
  owner := "Lb;"
  name := "f"
  type := "Lc;"

def nestedField : FieldRef where
  owner := "Lc;"
  name := "x"
  type := "I"

theorem nesting_storesThrough :
    StoresThrough nestingStore nestingLoad nestingWrite 1 0 2 3 nestingField nestingField
      nestedField where
  loads_next := ⟨rfl, rfl, rfl, rfl⟩
  writes_next := ⟨rfl, rfl, rfl, rfl⟩
  stores := ⟨by decide +kernel, rfl, rfl, by decide +kernel, by decide, by decide⟩
  loads := ⟨by decide +kernel, rfl, rfl, by decide +kernel, by decide, by decide⟩
  same_field := rfl
  writes := ⟨by decide +kernel, rfl, rfl, by decide +kernel, by decide, by decide⟩

theorem registered_nestingStore : nestingStore.layout.Registered :=
  Program.registered_heapLayout _ _

theorem nestingStore_fits (escaped : Bool) : nestingStore.Fits (nestingState escaped) := by
  cases escaped
  · exact ⟨by decide, by decide +kernel, by decide +kernel, by decide +kernel⟩
  · exact ⟨by decide, by decide +kernel, by decide +kernel, by decide +kernel⟩

/-- The first object is that of a site with the field at slot 0. -/
theorem nestingStore_holdsSite (escaped : Bool) :
    ∃ site, (site, 0) ∈ nestingStore.layout.sitesWithField nestingField.fieldId ∧
      nestingStore.HoldsSite (nestingState escaped) 0 site := by
  have hsite : ∃ entry ∈ nestingStore.layout.sitesWithField nestingField.fieldId, entry.2 = 0 ∧
      2237463218 = twosComplement entry.1.id.toInt nestingStore.width := by
    decide +kernel
  obtain ⟨⟨site, k⟩, hmem, rfl, hid⟩ := hsite
  exact ⟨site, hmem, _, rfl, rfl, hid⟩

/-- The secret is a fact about the second object when that one has escaped before. -/
theorem reference_through_object_sample :
    nestingStore.layout.Registered ∧ nestingStore.Fits (nestingState true) ∧
      ∃ putting getting writing, nestingStore.compileOrSkip = .ok putting ∧
        nestingLoad.compileOrSkip = .ok getting ∧ nestingWrite.compileOrSkip = .ok writing ∧
        ∀ facts : Fact → Prop, Models putting.clauses facts → Models getting.clauses facts →
          Models writing.clauses facts →
            facts (pointFact nestingStore.point (nestingState true)) →
              facts (objectFact 32 nestedField.classId (-2057504076) nestedField.fieldId
                ⟨5, true, false, false⟩) := by
  obtain ⟨site, hsite, hobject⟩ := nestingStore_holdsSite true
  obtain ⟨putting, getting, writing, hputting, hgetting, hwriting, after, rfl, -, hafter, hglobal,
    -⟩ := reference_through_object nesting_storesThrough registered_nestingStore
      (nestingStore_fits true) hsite hobject rfl
  refine ⟨registered_nestingStore, nestingStore_fits true, putting, getting, writing, hputting,
    hgetting, hwriting, fun facts hstores hloads hwrites hbefore => ?_⟩
  exact hglobal rfl (-2057504076) (by decide) _ rfl facts hwrites
    (hafter facts hstores hloads hbefore)

/-- A reference to the second object that has not escaped is neither local nor global when it has
been loaded, and the secret is lost: it gets to no slot and there is no fact about an object. -/
theorem local_reference_is_lost :
    nestingStore.layout.Registered ∧ nestingStore.Fits (nestingState false) ∧
      (∃ site, (site, 0) ∈ nestingStore.layout.sitesWithField nestingField.fieldId ∧
        nestingStore.HoldsSite (nestingState false) 0 site) ∧
      (∃ site, (site, 2) ∈ nestingStore.layout.sitesWithField nestedField.fieldId ∧
        nestingStore.HoldsSite (nestingState false) 1 site ∧
        ∃ header, (nestingState false).heap[site.headerSlot]? = some header ∧
          header.free = false) ∧
      ∃ putting getting writing after, nestingStore.compileOrSkip = .ok putting ∧
        nestingLoad.compileOrSkip = .ok getting ∧ nestingWrite.compileOrSkip = .ok writing ∧
        (∀ facts : Fact → Prop, Models putting.clauses facts → Models getting.clauses facts →
          facts (pointFact nestingStore.point (nestingState false)) →
            facts (pointFact nestingWrite.point after)) ∧
        after.registers[2]? = some ⟨2237463220, false, false, false⟩ ∧
        after.registers[3]? = some ⟨5, true, false, false⟩ ∧
        ∃ facts : Fact → Prop, Models writing.clauses facts ∧
          facts (pointFact nestingWrite.point after) ∧
          (∀ classId id field cell, ¬ facts (objectFact 32 classId id field cell)) ∧
          ∀ position later, later.registers.length = nestingWrite.shape.slotCount →
            facts (pointFact position later) →
              later.heap[2]? = some ⟨⟨0, false, false, false⟩, false⟩ := by
  obtain ⟨site, hsite, hobject⟩ := nestingStore_holdsSite false
  -- the stored object is another site, which is allocated
  have hnested : ∃ entry ∈ nestingStore.layout.sitesWithField nestedField.fieldId, entry.2 = 2 ∧
      2237463220 = twosComplement entry.1.id.toInt nestingStore.width ∧
        entry.1.headerSlot = 3 := by
    decide +kernel
  obtain ⟨⟨nested, k⟩, hmem, rfl, hid, hheader⟩ := hnested
  obtain ⟨putting, getting, clauses, hputting, hgetting, hwriting, hafter, hfits, hdestination,
    hputs⟩ := nesting_storesThrough.exists_passed registered_nestingStore
      (nestingStore_fits false) hsite hobject rfl
  refine ⟨registered_nestingStore, nestingStore_fits false, ⟨site, hsite, hobject⟩,
    ⟨nested, hmem, ⟨_, rfl, rfl, hid⟩, _, by rw [hheader]; rfl, rfl⟩, putting, getting, _, _,
    hputting, hgetting, hwriting, hafter, hdestination, rfl, _,
    hputs.models_unrecorded nesting_storesThrough.writes hfits.registers_length hdestination rfl
      rfl, unrecorded_self _ _, ?_, ?_⟩
  · -- the relation of an object is no point
    rintro classId id field cell ⟨position, later, -, hfact, -⟩
    have hobject : ∀ point, Relation.object ≠ .point point := nofun
    exact Relation.name_ne_point hobject position (congrArg Fact.relation hfact)
  · -- the state agrees with the store up to labels, so its heap is the same
    rintro position later hlength ⟨position', later', raised, hfact, hraises⟩
    have hsize : later.registers.length = later'.registers.length := by
      rw [hlength, hraises.length_eq, hfits.registers_length]
    obtain ⟨-, rfl⟩ := pointFact_injective hsize hfact
    rw [hraises.heap]
    rfl

end StepContext

end DalvikHorn
