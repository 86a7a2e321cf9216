import DalvikHorn.Compile.Instruction
import DalvikHorn.Proofs.Sorted
import DalvikHorn.Proofs.Yields

/-!
# What an instruction can emit

Every invariant of the clauses of a program is an invariant of the clauses of its
instructions.  This file says once what those clauses look like, so that the
invariants need not look into the handlers again.

* `Updated` describes the states that an instruction can go on with: they arise
  from the state before it by writing registers that the instruction names,
  copying cells between them, storing into the local heap, moving the local heap
  to the global one and allocating at a site.
* `Emitted` describes the clauses: steps to an updated state, facts of the global
  heap, entries and exits of methods.

## Strategy

The predicates are closed under the operations that handlers are made of
(`updated_set`, `emits_lift` and so on).  The handlers themselves are gone through
in `Proofs/Handlers.lean` and `Proofs/LibraryHandlers.lean`.
-/

namespace DalvikHorn

/-! ## Updates of states -/

namespace State

theorem getElem?_mapRegisters (state : State) (count : Nat) (change : Nat → Cell → Cell) (r : Nat) :
    (state.mapRegisters count change).registers[r]? =
      state.registers[r]?.map fun cell => if r < count then change r cell else cell := by
  simp [mapRegisters]

@[simp] theorem heap_mapRegisters (state : State) (count : Nat) (change : Nat → Cell → Cell) :
    (state.mapRegisters count change).heap = state.heap := rfl

theorem getElem?_promote (layout : HeapLayout) (width numRegisters : Nat) (state : State) (r : Nat) :
    (state.promote layout width numRegisters).registers[r]? =
      state.registers[r]?.map fun cell => if r < numRegisters + 1 then cell.promote else cell :=
  getElem?_mapRegisters ..

@[simp] theorem heap_promote (layout : HeapLayout) (width numRegisters : Nat) (state : State) :
    (state.promote layout width numRegisters).heap =
      List.replicate layout.size (.empty width) := rfl

theorem register_yields (state : State) (r : Nat) :
    Yields (state.register r) fun cell => state.registers[r]? = some cell := by
  unfold register
  split
  · exact .ok (by assumption)
  · exact .error rfl

theorem slot_yields (state : State) (k : Nat) :
    Yields (state.slot k) fun slot => state.heap[k]? = some slot := by
  unfold slot
  split
  · exact .ok (by assumption)
  · exact .error rfl

theorem set_yields (state : State) (r : Nat) (cell : Cell) :
    Yields (state.set r cell) fun post =>
      r < state.registers.length ∧ post = { state with registers := state.registers.set r cell } := by
  unfold set
  split
  · exact .ok ⟨by assumption, rfl⟩
  · exact .error rfl

theorem setSlot_yields (state : State) (k : Nat) (slot : HeapSlot) :
    Yields (state.setSlot k slot) fun post =>
      k < state.heap.length ∧ post = { state with heap := state.heap.set k slot } := by
  unfold setSlot
  split
  · exact .ok ⟨by assumption, rfl⟩
  · exact .error rfl

/-- What clearing a site leaves: its slots are allocated, and every other slot is either kept
or allocated too. -/
structure Cleared (width : Nat) (slots : List Nat) (state post : State) : Prop where
  registers_eq : post.registers = state.registers
  heap_length : post.heap.length = state.heap.length
  slot_eq : ∀ (k : Nat) (slot : HeapSlot), post.heap[k]? = some slot →
    slot = .allocated width ∨ state.heap[k]? = some slot
  allocated : ∀ k ∈ slots, post.heap[k]? = some (.allocated width)

theorem clearSlots_yields (width : Nat) (slots : List Nat) (state : State) :
    Yields (slots.foldlM (fun post k => post.setSlot k (.allocated width)) state)
      (Cleared width slots state) := by
  induction slots generalizing state with
  | nil => exact .pure ⟨rfl, rfl, fun k slot hslot => .inr hslot, by simp⟩
  | cons first rest ih =>
      rw [List.foldlM_cons]
      refine .bind (setSlot_yields state first _) ?_
      rintro next ⟨hlt, rfl⟩
      -- a slot of the result is allocated, or untouched by this and the later updates
      refine (ih _).mono fun post hpost => ?_
      have hkept : ∀ (k : Nat) (slot : HeapSlot), post.heap[k]? = some slot →
          slot = .allocated width ∨ state.heap[k]? = some slot ∧ k ≠ first := by
        intro k slot hslot
        rcases hpost.slot_eq k slot hslot with h | h
        · exact .inl h
        · rw [List.getElem?_set] at h
          split at h
          · simp_all
          · exact .inr ⟨h, Ne.symm (by assumption)⟩
      refine ⟨hpost.registers_eq, by simpa using hpost.heap_length, fun k slot hslot => ?_, ?_⟩
      · exact (hkept k slot hslot).imp_right And.left
      · intro k hk
        rcases List.mem_cons.mp hk with rfl | hk
        · -- A later slot may be the same one, so the first update need not be the last.
          have hin : k < post.heap.length := by
            rw [hpost.heap_length]
            simpa using hlt
          rcases hkept k _ (List.getElem?_eq_getElem hin) with h | ⟨-, h⟩
          · rw [List.getElem?_eq_getElem hin, h]
          · exact absurd rfl h
        · exact hpost.allocated k hk

theorem clearSite_yields (width : Nat) (site : AllocationSite) (state : State) :
    Yields (state.clearSite width site) (Cleared width site.slots state) :=
  clearSlots_yields width site.slots state

/-! ### Sorted results -/

variable {shape : FrameShape} {heapSize width : Nat} {state : State}

theorem Sorted.register (h : state.Sorted shape heapSize width) {r : Nat} {cell : Cell}
    (hcell : state.registers[r]? = some cell) : cell.Sorted width :=
  h.registers cell (List.mem_of_getElem? hcell)

theorem Sorted.slot (h : state.Sorted shape heapSize width) {k : Nat} {slot : HeapSlot}
    (hslot : state.heap[k]? = some slot) : slot.Sorted width :=
  h.heap slot (List.mem_of_getElem? hslot)

theorem Sorted.set (h : state.Sorted shape heapSize width) {r : Nat} {cell : Cell}
    (hcell : cell.Sorted width) :
    State.Sorted shape heapSize width { state with registers := state.registers.set r cell } where
  registers_length := by simpa using h.registers_length
  registers := by
    intro other hother
    rcases List.mem_or_eq_of_mem_set hother with hmem | rfl
    · exact h.registers other hmem
    · exact hcell
  heap_length := h.heap_length
  heap := h.heap

theorem Sorted.setSlot (h : state.Sorted shape heapSize width) {k : Nat} {slot : HeapSlot}
    (hslot : slot.Sorted width) :
    State.Sorted shape heapSize width { state with heap := state.heap.set k slot } where
  registers_length := h.registers_length
  registers := h.registers
  heap_length := by simpa using h.heap_length
  heap := by
    intro other hother
    rcases List.mem_or_eq_of_mem_set hother with hmem | rfl
    · exact h.heap other hmem
    · exact hslot

theorem Sorted.mapRegisters (h : state.Sorted shape heapSize width) {count : Nat}
    {change : Nat → Cell → Cell} (hchange : ∀ i cell, cell.Sorted width → (change i cell).Sorted width) :
    (state.mapRegisters count change).Sorted shape heapSize width where
  registers_length := by simpa [State.mapRegisters] using h.registers_length
  registers := by
    intro cell hcell
    obtain ⟨r, hr⟩ := List.mem_iff_getElem?.mp hcell
    rw [getElem?_mapRegisters] at hr
    obtain ⟨before, hbefore, rfl⟩ := Option.map_eq_some_iff.mp hr
    split
    · exact hchange r before (h.register hbefore)
    · exact h.register hbefore
  heap_length := h.heap_length
  heap := h.heap

theorem Sorted.withHeap (h : state.Sorted shape heapSize width) {heap : List HeapSlot}
    (hlength : heap.length = heapSize) (hheap : ∀ slot ∈ heap, slot.Sorted width) :
    (state.withHeap heap).Sorted shape heapSize width where
  registers_length := h.registers_length
  registers := h.registers
  heap_length := hlength
  heap := hheap

theorem Sorted.promote {layout : HeapLayout} (h : state.Sorted shape layout.size width)
    (numRegisters : Nat) :
    (state.promote layout width numRegisters).Sorted shape layout.size width := by
  refine (h.mapRegisters fun _ _ hcell => hcell.promote).withHeap (by simp) ?_
  intro slot hslot
  rw [List.eq_of_mem_replicate hslot]
  exact HeapSlot.sorted_empty

theorem Sorted.cleared {slots : List Nat} {post : State} (h : state.Sorted shape heapSize width)
    (hpost : Cleared width slots state post) : post.Sorted shape heapSize width where
  registers_length := by rw [hpost.registers_eq, h.registers_length]
  registers := by rw [hpost.registers_eq]; exact h.registers
  heap_length := by rw [hpost.heap_length, h.heap_length]
  heap := by
    intro slot hslot
    obtain ⟨k, hk⟩ := List.mem_iff_getElem?.mp hslot
    rcases hpost.slot_eq k slot hk with rfl | hk
    · exact HeapSlot.sorted_allocated
    · exact h.slot hk

end State

/-! ## Operands -/

namespace Instruction

/-- The registers that an instruction names. -/
def operands (instruction : Instruction) : List UInt32 :=
  instruction.registers ++ instruction.argumentRegisters

variable {instruction : Instruction}

theorem register_yields (index : Nat) :
    Yields (instruction.register index) (· ∈ instruction.operands) := by
  unfold register
  split
  · exact .ok (List.mem_append_left _ (List.mem_of_getElem? (by assumption)))
  · exact .error rfl

theorem getLiteral_yields : Yields instruction.getLiteral fun _ => True := by
  unfold getLiteral
  split
  · exact .ok trivial
  · exact .error rfl

theorem getReference_yields :
    Yields instruction.getReference fun reference => instruction.reference = some reference := by
  unfold getReference
  split
  · exact .ok (by assumption)
  · exact .error rfl

theorem branchTarget_yields : Yields instruction.branchTarget fun _ => True := by
  unfold branchTarget
  split
  · unfold relativePc
    dsimp only
    split
    · exact .ok trivial
    · exact .error rfl
  · exact .error rfl

/-- The call that an instruction makes, when it is a call. -/
def Calls (instruction : Instruction) (call : CallSite) : Prop :=
  ∃ kind range, instruction.opcode = .invoke kind range ∧
    CallSite.ofInstruction instruction kind = .ok call

end Instruction

namespace StepContext

variable (cx : StepContext)

/-- A slot that an instruction may read or write: one that it names, or the return slot. -/
def Accesses (r : Nat) : Prop :=
  r = cx.shape.returnSlot ∨ ∃ operand ∈ cx.instruction.operands, operand.toNat = r

/-- A cell that an instruction reads from the state before it. -/
def Reads (cell : Cell) : Prop :=
  ∃ r, cx.Accesses r ∧ cx.pre.registers[r]? = some cell

end StepContext

theorem Cell.Sorted.release {width : Nat} {cell : Cell} {id : BvExpr} (hcell : cell.Sorted width)
    (hid : id.Sorted width) : (cell.release id).Sorted width :=
  by
  have hrefers : (cell.value.eqTo id).Sorted width := hcell.value.eqTo hid
  exact ⟨hcell.value, hcell.high, hcell.isLocal.both hrefers.negate,
    hcell.isGlobal.either (hcell.isLocal.both hrefers)⟩

/-! ## Facts of the global heap -/

/-- Atoms of the four relations of the global heap over sorted terms. -/
inductive GlobalHeap.IsFact (width : Nat) : Atom → Prop
  | object {classKey id field value : BvExpr} {high blocked : Formula}
      (hclass : classKey.Sorted width) (hid : id.Sorted width) (hfield : field.Sorted width)
      (hvalue : value.Sorted width) (hhigh : high.Sorted width)
      (hblocked : blocked.Sorted width) :
      IsFact width (GlobalHeap.object classKey id field value high blocked)
  | extra {intent key value : BvExpr} {high blocked : Formula} (hintent : intent.Sorted width)
      (hkey : key.Sorted width) (hvalue : value.Sorted width) (hhigh : high.Sorted width)
      (hblocked : blocked.Sorted width) :
      IsFact width (GlobalHeap.extra intent key value high blocked)
  | launch {component caller value : BvExpr} {high blocked : Formula}
      (hcomponent : component.Sorted width) (hcaller : caller.Sorted width)
      (hvalue : value.Sorted width) (hhigh : high.Sorted width)
      (hblocked : blocked.Sorted width) :
      IsFact width (GlobalHeap.launch component caller value high blocked)
  | static {owner field : Int} {value : BvExpr} {high blocked : Formula}
      (hvalue : value.Sorted width) (hhigh : high.Sorted width)
      (hblocked : blocked.Sorted width) :
      IsFact width (GlobalHeap.static (.lit owner) (.lit field) value high blocked)

theorem GlobalHeap.IsFact.sorted_args {width : Nat} {atom : Atom} (h : IsFact width atom) :
    ∀ arg ∈ atom.args, arg.Sorted width := by
  cases h with
  | object hclass hid hfield hvalue hhigh hblocked =>
      simp [GlobalHeap.object, Term.Sorted, hclass, hid, hfield, hvalue, hhigh, hblocked]
  | extra hintent hkey hvalue hhigh hblocked =>
      simp [GlobalHeap.extra, Term.Sorted, hintent, hkey, hvalue, hhigh, hblocked]
  | launch hcomponent hcaller hvalue hhigh hblocked =>
      simp [GlobalHeap.launch, Term.Sorted, hcomponent, hcaller, hvalue, hhigh, hblocked]
  | static hvalue hhigh hblocked =>
      simp [GlobalHeap.static, Term.Sorted, hvalue, hhigh, hblocked]

theorem GlobalHeap.isFact_holding {width : Nat} {classKey id field : BvExpr} {cell : Cell}
    (hclass : classKey.Sorted width) (hid : id.Sorted width) (hfield : field.Sorted width)
    (hcell : cell.Sorted width) :
    IsFact width (GlobalHeap.holding classKey id field cell) :=
  .object hclass hid hfield hcell.value hcell.high hcell.blocked

/-! ## Targets -/

/-- A frame that an oracle gives as the target of some call. -/
def Oracle.Targets (oracle : Oracle) (owner : ClassId) (method : MethodId)
    (shape : FrameShape) : Prop :=
  (∃ named signature found, oracle.resolveVirtual named signature = some found ∧
      ∃ implementation ∈ found, implementation.owner = owner ∧ implementation.method = method ∧
        implementation.shape = shape) ∨
    ∃ named signature found, oracle.resolveStatic named signature = some found ∧
      ∃ definition ∈ found, definition.owner = owner ∧ definition.method = method ∧
        definition.shape = shape

namespace StepContext

variable (cx : StepContext)

/-! ## Guards, states and clauses -/

/-- A guard of a clause: a sorted condition, or a fact of the global heap. -/
def IsGuard (guard : Formula) : Prop :=
  guard.Sorted cx.width ∨
    ∃ atom : Atom, guard = atom.toFormula ∧ GlobalHeap.IsFact cx.width atom

/-- The states that an instruction can go on with. -/
inductive Updated : State → Prop
  | pre : Updated cx.pre
  /-- The local heap moves to the global one. -/
  | promote {state : State} (hstate : Updated state) :
      Updated (state.promote cx.layout cx.width cx.shape.numRegisters)
  /-- A register gets a value that does not refer to the local heap. -/
  | write {state : State} {r : Nat} {cell : Cell} (hstate : Updated state)
      (hr : cx.Accesses r) (hcell : cell.Sorted cx.width) (hlocal : cell.isLocal = .ff) :
      Updated { state with registers := state.registers.set r cell }
  /-- A register gets the value of a register, possibly with another label. -/
  | copy {state : State} {r source : Nat} {cell : Cell} {high : Formula}
      (hstate : Updated state) (hr : cx.Accesses r) (hsource : cx.Accesses source)
      (hcell : state.registers[source]? = some cell) (hhigh : high.Sorted cx.width) :
      Updated { state with registers := state.registers.set r (cell.withHigh high) }
  /-- A slot of the local heap gets the value of a register. -/
  | store {state : State} {k source : Nat} {cell : Cell} (hstate : Updated state)
      (hsource : cx.Accesses source) (hcell : state.registers[source]? = some cell) :
      Updated { state with heap := state.heap.set k { cell := cell, free := .ff } }
  /-- The references to the previous object of a site move to the global heap. -/
  | release {state : State} {id : BvExpr} (hstate : Updated state) (hid : id.Sorted cx.width) :
      Updated (state.mapRegisters (cx.shape.numRegisters + 1) fun _ cell => cell.release id)
  /-- A register gets a reference to a new object of a site. -/
  | allocate {state post : State} {r : Nat} {site : AllocationSite} (hstate : Updated state)
      (hr : cx.Accesses r) (hsite : site ∈ cx.layout.sites)
      (hpost : State.clearSite cx.width site
        { state with registers := state.registers.set r (.localRef (cx.idLiteral site.id)) } =
          .ok post) :
      Updated post

/-- The state in which a method is entered: its registers hold zero or cells that the
instruction reads, and its heap is that of the caller. -/
structure Entered (shape : FrameShape) (entry : State) : Prop where
  registers_length : entry.registers.length = shape.slotCount
  registers : ∀ cell ∈ entry.registers, cell = .zero cx.width ∨ cx.Reads cell
  heap_eq : entry.heap = cx.pre.heap

/-- The local heap that a call returns, over its variables. -/
def returnedHeap : List HeapSlot :=
  canonicalHeap Names.returnedHeap cx.layout.size cx.width

/-- The state in which control goes on after a call, with the result of the call if it has
one.  A slot is free when it was free both before the call and at the exit. -/
def afterReturn (result : Option Cell) : State where
  registers :=
    let kept := (cx.pre.mapRegisters (cx.shape.numRegisters + 1) fun _ =>
      afterCall cx.occupiedSites).registers
    match result with
    | some cell => kept.set cx.shape.returnSlot cell
    | none => kept
  heap := (cx.returnedHeap.zip cx.pre.heap).map fun (callee, own) =>
    { callee with free := callee.free.both own.free }

/-- The clauses that an instruction can contribute. -/
inductive Emitted : Clause → Prop
  /-- A step to a position of the method. -/
  | step {pc : UInt32} {guards : List Formula} {post : State}
      (hguards : ∀ guard ∈ guards, cx.IsGuard guard) (hpost : cx.Updated post) :
      Emitted (cx.jump pc guards post)
  /-- A fact of the global heap. -/
  | fact {guards : List Formula} {head : Atom} (hguards : ∀ guard ∈ guards, cx.IsGuard guard)
      (hhead : GlobalHeap.IsFact cx.width head) : Emitted (cx.derive guards head)
  /-- The entry of a method that the instruction calls or starts. -/
  | enter {owner : ClassId} {method : MethodId} {shape : FrameShape} {guards : List Formula}
      {entry : State} (hguards : ∀ guard ∈ guards, guard.Sorted cx.width)
      (htarget : cx.oracle.Targets owner method shape) (hshape : shape.WellFormed)
      (hentry : cx.Entered shape entry) :
      Emitted (cx.derive guards (pointAtom ⟨owner, method, 0⟩ entry))
  /-- The continuation of a call at the exit of a target. -/
  | leave {call : CallSite} {target : CallTarget} {guards : List Formula} {arguments : List Cell}
      {high : Formula} (hcall : cx.instruction.Calls call)
      (htarget : target ∈ call.targets cx.oracle)
      (hguards : ∀ guard ∈ guards, guard.Sorted cx.width)
      (hlength : arguments.length = target.shape.numArguments)
      (harguments : ∀ cell ∈ arguments, cell = .zero cx.width ∨ cx.Reads cell)
      (hhigh : high.Sorted cx.width) :
      Emitted (cx.step
        ((exitAtom target.owner target.method arguments cx.resultCell cx.returnedHeap).toFormula ::
          guards)
        (cx.afterReturn
          (if call.returnKind.returnsValue then some (cx.resultCell.withHigh high) else none)))
  /-- The entry of a static initialiser. -/
  | startInitializer {owner : ClassId} {shape : FrameShape}
      (hinitializer : cx.oracle.hasStaticInitializer owner)
      (hshape : cx.oracle.methodShape owner (textHash staticInitializer) = some shape) :
      Emitted (cx.derive []
        (pointAtom ⟨owner, textHash staticInitializer, 0⟩ (.zeroed shape cx.pre.heap cx.width)))
  /-- The exit of the method.  Its result is a cell that the instruction reads, or any. -/
  | exit {result : Cell}
      (hresult : result = cx.resultCell ∧ cx.instruction.opcode = .returnVoid ∨ cx.Reads result) :
      Emitted (cx.derive []
        (exitAtom cx.owner.id cx.method.id (cx.pre.registers.drop (cx.shape.numRegisters + 1))
          result cx.pre.heap))

/-- Every clause of a handler is one that an instruction can contribute, and its errors do not
end the run. -/
def Emits (outcome : Except Error (List Clause)) : Prop :=
  Yields outcome fun clauses => ∀ clause ∈ clauses, cx.Emitted clause

/-! ## Sorted states -/

theorem sorted_pre : cx.pre.Sorted cx.shape cx.layout.size cx.width :=
  State.sorted_canonical _ _ _

variable {cx}

theorem eq_register_of_pre {r : Nat} {cell : Cell} (h : cx.pre.registers[r]? = some cell) :
    r < cx.shape.slotCount ∧ cell = .register r cx.width := by
  simp only [pre, State.canonical, List.getElem?_map] at h
  obtain ⟨i, hi, rfl⟩ := Option.map_eq_some_iff.mp h
  obtain ⟨hr, hri⟩ := List.getElem?_eq_some_iff.mp hi
  rw [List.getElem_range] at hri
  exact ⟨by simpa using hr, by rw [hri]⟩

theorem Reads.sorted {cell : Cell} (h : cx.Reads cell) : cell.Sorted cx.width := by
  obtain ⟨r, -, hcell⟩ := h
  exact cx.sorted_pre.registers cell (List.mem_of_getElem? hcell)

/-- An instruction goes on with a state of the same frame over sorted terms. -/
theorem Updated.sorted {state : State} (h : cx.Updated state) :
    state.Sorted cx.shape cx.layout.size cx.width := by
  induction h with
  | pre => exact cx.sorted_pre
  | promote _ ih => exact ih.promote _
  | write _ _ hcell _ ih => exact ih.set hcell
  | copy _ _ _ hcell hhigh ih => exact ih.set ((ih.register hcell).withHigh hhigh)
  | store _ _ hcell ih => exact ih.setSlot ⟨ih.register hcell, Formula.sorted_const _⟩
  | release _ hid ih => exact ih.mapRegisters fun _ _ hcell => hcell.release hid
  | allocate _ _ _ hpost ih =>
      exact (ih.set (Cell.sorted_localRef (GlobalHeap.sorted_idLiteral _))).cleared
        ((State.clearSite_yields _ _ _).result _ hpost)

/-! ## Reading operands -/

theorem accesses_returnSlot : cx.Accesses cx.shape.returnSlot := .inl rfl

theorem accesses_operand {r : UInt32} (hr : r ∈ cx.instruction.operands) : cx.Accesses r.toNat :=
  .inr ⟨r, hr, rfl⟩

theorem mem_operands_of_mem_arguments {r : UInt32}
    (hr : r ∈ cx.instruction.argumentRegisters) : r ∈ cx.instruction.operands :=
  List.mem_append_right _ hr

theorem register_yields {r : UInt32} (hr : r ∈ cx.instruction.operands) :
    Yields (cx.register r) cx.Reads :=
  (State.register_yields _ _).mono fun _ hcell => ⟨_, accesses_operand hr, hcell⟩

theorem operand_yields (index : Nat) : Yields (cx.operand index) cx.Reads :=
  .bind (Instruction.register_yields index) fun _ hr => register_yields hr

theorem fieldReference_yields : Yields cx.fieldReference fun _ => True :=
  .bind Instruction.getReference_yields fun _ _ => (Yields.mapError fun _ => rfl).mono fun _ _ => trivial

theorem pre_slot_yields (k : Nat) : Yields (cx.pre.slot k) (HeapSlot.Sorted cx.width) :=
  (State.slot_yields _ _).mono fun _ hslot => cx.sorted_pre.slot hslot

/-! ## Sorted terms of a context -/

theorem sorted_literal (value : Int) : (cx.literal value).Sorted cx.width :=
  BvExpr.sorted_ofInt _

theorem sorted_idLiteral (id : Int32) : (cx.idLiteral id).Sorted cx.width :=
  GlobalHeap.sorted_idLiteral _

theorem sorted_classLiteral (name : String) : (cx.classLiteral name).Sorted cx.width :=
  GlobalHeap.sorted_idLiteral _

theorem sorted_namedKey (name : String) : (cx.namedKey name).Sorted cx.width :=
  GlobalHeap.sorted_idLiteral _

theorem sorted_variable {name : String} [Names.AuxiliaryValue name] :
    (cx.variable_ name).Sorted cx.width :=
  BvExpr.sorted_auxiliary

theorem sorted_flag {name : String} [Names.AuxiliaryFlag name] :
    (Formula.var name).Sorted cx.width :=
  Formula.sorted_auxiliary

/-! ## Updating states -/

/-- A cell that may be written to a register: one that does not refer to the local heap, or
one that is read from a register. -/
def IsResult (cx : StepContext) (cell : Cell) : Prop :=
  (cell.Sorted cx.width ∧ cell.isLocal = .ff) ∨ cx.Reads cell

theorem isResult_scalar {value : BvExpr} {high : Formula} (hvalue : value.Sorted cx.width)
    (hhigh : high.Sorted cx.width) : cx.IsResult (.scalar value high) :=
  .inl ⟨Cell.sorted_scalar hvalue hhigh, rfl⟩

theorem isResult_globalRef {object : BvExpr} {high : Formula} (hobject : object.Sorted cx.width)
    (hhigh : high.Sorted cx.width) : cx.IsResult (.globalRef object high) :=
  .inl ⟨Cell.sorted_globalRef hobject hhigh, rfl⟩

theorem updated_pre_set {r : Nat} {cell : Cell} (hr : cx.Accesses r) (hcell : cx.IsResult cell) :
    cx.Updated { cx.pre with registers := cx.pre.registers.set r cell } := by
  rcases hcell with ⟨hsorted, hlocal⟩ | ⟨source, hsource, hcell⟩
  · exact .write .pre hr hsorted hlocal
  · exact .copy .pre hr hsource hcell (cx.sorted_pre.register hcell).high

theorem updated_set {state : State} (hstate : cx.Updated state) {r : Nat} {cell : Cell}
    (hr : cx.Accesses r) (hcell : cell.Sorted cx.width) (hlocal : cell.isLocal = .ff) :
    Yields (state.set r cell) cx.Updated := by
  refine (State.set_yields _ _ _).mono ?_
  rintro post ⟨-, rfl⟩
  exact .write hstate hr hcell hlocal

theorem updated_taint {state : State} (hstate : cx.Updated state) {r : Nat} {taint : Formula}
    (hr : cx.Accesses r) (htaint : taint.Sorted cx.width) :
    Yields (state.taint r taint) cx.Updated := by
  refine .bind (State.register_yields _ _) fun cell hcell => ?_
  refine (State.set_yields _ _ _).mono ?_
  rintro post ⟨-, rfl⟩
  exact .copy hstate hr hr hcell ((hstate.sorted.register hcell).high.either htaint)

/-! ## Clauses -/

theorem isGuard_of_sorted {guard : Formula} (h : guard.Sorted cx.width) : cx.IsGuard guard :=
  .inl h

theorem isGuard_of_isFact {atom : Atom} (h : GlobalHeap.IsFact cx.width atom) :
    cx.IsGuard atom.toFormula :=
  .inr ⟨atom, rfl, h⟩

theorem forall_isGuard_nil : ∀ guard ∈ ([] : List Formula), cx.IsGuard guard := by
  simp

theorem forall_isGuard_singleton {guard : Formula} (h : cx.IsGuard guard) :
    ∀ other ∈ [guard], cx.IsGuard other := by
  simpa using h

theorem forall_isGuard_append {first second : List Formula}
    (hfirst : ∀ guard ∈ first, cx.IsGuard guard) (hsecond : ∀ guard ∈ second, cx.IsGuard guard) :
    ∀ guard ∈ first ++ second, cx.IsGuard guard :=
  List.forall_mem_append.mpr ⟨hfirst, hsecond⟩

theorem emitted_identity : cx.Emitted cx.identity :=
  .step forall_isGuard_nil .pre

theorem emits_identity : cx.Emits (.ok [cx.identity]) :=
  .ok (by simpa using emitted_identity)

variable {guards : List Formula} {update : State → Except Error State}

theorem emits_assign {r : UInt32} {cell : Cell} (hr : r ∈ cx.instruction.operands)
    (hguards : ∀ guard ∈ guards, cx.IsGuard guard) (hcell : cx.IsResult cell) :
    cx.Emits (cx.assign r guards cell) := by
  refine .bind (State.set_yields _ _ _) ?_
  rintro post ⟨-, rfl⟩
  refine .pure ?_
  simpa using .step hguards (updated_pre_set (accesses_operand hr) hcell)

theorem emits_returns {cell : Cell} (hguards : ∀ guard ∈ guards, cx.IsGuard guard)
    (hcell : cx.IsResult cell) : cx.Emits (cx.returns guards cell) := by
  refine .bind (State.set_yields _ _ _) ?_
  rintro post ⟨-, rfl⟩
  refine .pure ?_
  simpa using .step hguards (updated_pre_set accesses_returnSlot hcell)

/-- The contents of a site are facts of the global heap, guarded by its header. -/
theorem emits_flushSite (site : AllocationSite) (hguards : ∀ guard ∈ guards, cx.IsGuard guard) :
    cx.Emits (flushSite cx.width site (cx.body guards) cx.pre) := by
  refine .bind (pre_slot_yields _) fun header hheader => ?_
  have hall : ∀ guard ∈ guards ++ [header.free.negate], cx.IsGuard guard :=
    forall_isGuard_append hguards
      (forall_isGuard_singleton (isGuard_of_sorted hheader.free.negate))
  dsimp only
  split
  · refine .mapM ?_
    rintro ⟨⟨field, primitive⟩, k⟩ -
    refine .bind (pre_slot_yields k) fun slot hslot => .pure ?_
    exact .fact hall (.object (GlobalHeap.sorted_idLiteral _) (GlobalHeap.sorted_idLiteral _)
      (GlobalHeap.sorted_idLiteral _) hslot.cell.value hslot.cell.high hslot.cell.blocked)
  · refine .pure ?_
    simpa using .fact hall (.object (GlobalHeap.sorted_idLiteral _)
      (GlobalHeap.sorted_idLiteral _) sorted_variable BvExpr.sorted_zero
      (Formula.sorted_const _) sorted_flag)

theorem emits_flushAll (hguards : ∀ guard ∈ guards, cx.IsGuard guard) :
    cx.Emits (flushAll cx.layout cx.width (cx.body guards) cx.pre) :=
  .bind (.mapM_flatten fun site _ => emits_flushSite site hguards) fun _ hclauses =>
    .pure hclauses

theorem emits_lift (hguards : ∀ guard ∈ guards, cx.IsGuard guard)
    (hupdate : ∀ state, cx.Updated state → Yields (update state) cx.Updated) :
    cx.Emits (cx.lift guards update) := by
  refine .bind (emits_flushAll hguards) fun facts hfacts => ?_
  refine .bind (hupdate _ (.promote .pre)) fun post hpost => .pure ?_
  intro clause hclause
  rcases List.mem_append.mp hclause with hmem | hmem
  · exact hfacts clause hmem
  · rw [List.mem_singleton.mp hmem]
    exact .step hguards hpost

theorem emits_liftIfLocal {r : UInt32} (hr : r ∈ cx.instruction.operands)
    (hguards : ∀ guard ∈ guards, cx.IsGuard guard)
    (hupdate : ∀ state, cx.Updated state → Yields (update state) cx.Updated) :
    cx.Emits (cx.liftIfLocal r guards update) := by
  refine .bind (register_yields hr) fun cell hcell => ?_
  exact emits_lift (forall_isGuard_append hguards
    (forall_isGuard_singleton (isGuard_of_sorted hcell.sorted.isLocal))) hupdate

theorem emits_liftIfAnyLocal {cells : List Cell} (hcells : ∀ cell ∈ cells, cell.Sorted cx.width)
    (hguards : ∀ guard ∈ guards, cx.IsGuard guard)
    (hupdate : ∀ state, cx.Updated state → Yields (update state) cx.Updated) :
    cx.Emits (cx.liftIfAnyLocal cells guards update) := by
  have hescaping : (Formula.any (cells.map (·.isLocal))).Sorted cx.width := by
    refine Formula.sorted_any fun part hpart => ?_
    obtain ⟨cell, hcell, rfl⟩ := List.mem_map.mp hpart
    exact (hcells cell hcell).isLocal
  unfold liftIfAnyLocal
  dsimp only
  split
  · exact .ok (by simp)
  · exact emits_lift (forall_isGuard_append hguards
      (forall_isGuard_singleton (isGuard_of_sorted hescaping))) hupdate

end StepContext

end DalvikHorn
