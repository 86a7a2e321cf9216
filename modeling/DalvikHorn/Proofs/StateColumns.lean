import DalvikHorn.Proofs.Signatures

/-!
# States are read back from their columns

Clauses that derive a state and clauses that start from one agree through positions alone: a
relation lists the components of its registers and of its heap slots in blocks, one block for a
component.  With `n` registers and `m` heap slots, register `r` and slot `k` stand at

```text
            value        high          local          global         free
register    r            n + r         2n + r         3n + r
slot        4n + k       4n + m + k    4n + 2m + k    4n + 3m + k    4n + 4m + k
```

* `LaidOut` is this table.  Points have it (`laidOut_pointAtom`), and exits have it with the
  arguments and the result in place of registers (`laidOut_exitAtom`).
* `State.ofColumns?` reads a state at these positions.  It gives back every state whose columns are
  laid out (`LaidOut.ofColumns?_eq`), so a point or an exit determines what it is about.
-/

namespace DalvikHorn

/-! ## Blocks -/

section Blocks

variable {α : Type}

theorem getElem?_append_of_eq_some {first : List α} {i : Nat} {item : α} (h : first[i]? = some item)
    (second : List α) : (first ++ second)[i]? = some item := by
  obtain ⟨hi, -⟩ := List.getElem?_eq_some_iff.mp h
  rw [List.getElem?_append_left hi, h]

theorem getElem?_append_length_add (first second : List α) (i : Nat) :
    (first ++ second)[first.length + i]? = second[i]? := by
  rw [List.getElem?_append_right (Nat.le_add_right _ _), Nat.add_sub_cancel_left]

/-- An entry of a block, in a list of blocks that all have one size. -/
theorem getElem?_flatten_blocks {size : Nat} (blocks : List (List α))
    (hsize : ∀ block ∈ blocks, block.length = size) {i : Nat} (hi : i < size) (b : Nat) :
    blocks.flatten[b * size + i]? = blocks[b]?.bind (·[i]?) := by
  induction blocks generalizing b with
  | nil => simp
  | cons block rest ih =>
      obtain ⟨hblock, hrest⟩ := List.forall_mem_cons.mp hsize
      cases b with
      | zero => simp [List.getElem?_append_left (hblock ▸ hi : i < block.length)]
      | succ b =>
          have hshift : (b + 1) * size + i = block.length + (b * size + i) := by
            rw [hblock, Nat.succ_mul]
            omega
          rw [List.flatten_cons, hshift, getElem?_append_length_add, ih hrest,
            List.getElem?_cons_succ]

/-- A list is collected from what is found for its positions. -/
theorem mapM_range_eq_some {f : Nat → Option α} {items : List α}
    (h : ∀ i item, items[i]? = some item → f i = some item) :
    (List.range items.length).mapM f = some items := by
  refine mapM_eq_some_of_map_eq (List.ext_getElem (by simp) fun i hi hi' => ?_)
  rw [List.length_map] at hi'
  simpa using h i items[i] (List.getElem?_eq_getElem hi')

end Blocks

/-! ## The layout of a state -/

/-- The columns of a state with `n` registers and `m` heap slots. -/
structure LaidOut (n m : Nat) (state : State) (columns : List Term) : Prop where
  registers_length : state.registers.length = n
  heap_length : state.heap.length = m
  columns_length : columns.length = 4 * n + 5 * m
  register : ∀ r cell, state.registers[r]? = some cell →
    columns[r]? = some (.bv cell.value) ∧
      columns[n + r]? = some (.bool cell.high) ∧
      columns[2 * n + r]? = some (.bool cell.isLocal) ∧
      columns[3 * n + r]? = some (.bool cell.isGlobal)
  slot : ∀ k slot, state.heap[k]? = some slot →
    columns[4 * n + k]? = some (.bv slot.cell.value) ∧
      columns[4 * n + m + k]? = some (.bool slot.cell.high) ∧
      columns[4 * n + 2 * m + k]? = some (.bool slot.cell.isLocal) ∧
      columns[4 * n + 3 * m + k]? = some (.bool slot.cell.isGlobal) ∧
      columns[4 * n + 4 * m + k]? = some (.bool slot.free)

@[simp] theorem length_frameColumns (registers : List Cell) :
    (frameColumns registers).length = 4 * registers.length := by
  simp [frameColumns]
  omega

@[simp] theorem length_heapColumns (heap : List HeapSlot) :
    (heapColumns heap).length = 5 * heap.length := by
  simp [heapColumns]
  omega

/-- The blocks of a frame. -/
def cellBlocks (registers : List Cell) : List (List Term) :=
  [ registers.map fun cell => .bv cell.value,
    registers.map fun cell => .bool cell.high,
    registers.map fun cell => .bool cell.isLocal,
    registers.map fun cell => .bool cell.isGlobal ]

theorem frameColumns_eq_flatten (registers : List Cell) :
    frameColumns registers = (cellBlocks registers).flatten := by
  simp [frameColumns, cellBlocks]

theorem getElem?_frameColumns {registers : List Cell} {r : Nat} {cell : Cell}
    (h : registers[r]? = some cell) :
    (frameColumns registers)[r]? = some (.bv cell.value) ∧
      (frameColumns registers)[registers.length + r]? = some (.bool cell.high) ∧
      (frameColumns registers)[2 * registers.length + r]? = some (.bool cell.isLocal) ∧
      (frameColumns registers)[3 * registers.length + r]? = some (.bool cell.isGlobal) := by
  obtain ⟨hr, -⟩ := List.getElem?_eq_some_iff.mp h
  have hsize : ∀ block ∈ cellBlocks registers, block.length = registers.length := by
    simp [cellBlocks]
  have hblock := getElem?_flatten_blocks (cellBlocks registers) hsize hr
  rw [← frameColumns_eq_flatten] at hblock
  exact ⟨by simpa [cellBlocks, h] using hblock 0, by simpa [cellBlocks, h] using hblock 1,
    by simpa [cellBlocks, h] using hblock 2, by simpa [cellBlocks, h] using hblock 3⟩

theorem getElem?_heapColumns {heap : List HeapSlot} {k : Nat} {slot : HeapSlot}
    (h : heap[k]? = some slot) :
    (heapColumns heap)[k]? = some (.bv slot.cell.value) ∧
      (heapColumns heap)[heap.length + k]? = some (.bool slot.cell.high) ∧
      (heapColumns heap)[2 * heap.length + k]? = some (.bool slot.cell.isLocal) ∧
      (heapColumns heap)[3 * heap.length + k]? = some (.bool slot.cell.isGlobal) ∧
      (heapColumns heap)[4 * heap.length + k]? = some (.bool slot.free) := by
  have hcell : (heap.map (·.cell))[k]? = some slot.cell := by rw [List.getElem?_map, h]; rfl
  obtain ⟨hvalue, hhigh, hlocal, hglobal⟩ := getElem?_frameColumns hcell
  rw [List.length_map] at hhigh hlocal hglobal
  refine ⟨getElem?_append_of_eq_some hvalue _, getElem?_append_of_eq_some hhigh _,
    getElem?_append_of_eq_some hlocal _, getElem?_append_of_eq_some hglobal _, ?_⟩
  have hfree := getElem?_append_length_add (frameColumns (heap.map (·.cell)))
    (heap.map fun slot => .bool slot.free) k
  rw [length_frameColumns, List.length_map, List.getElem?_map, h] at hfree
  exact hfree

theorem laidOut_columns (state : State) :
    LaidOut state.registers.length state.heap.length state
      (frameColumns state.registers ++ heapColumns state.heap) where
  registers_length := rfl
  heap_length := rfl
  columns_length := by rw [List.length_append, length_frameColumns, length_heapColumns]
  register r cell hcell := by
    obtain ⟨hvalue, hhigh, hlocal, hglobal⟩ := getElem?_frameColumns hcell
    exact ⟨getElem?_append_of_eq_some hvalue _, getElem?_append_of_eq_some hhigh _,
      getElem?_append_of_eq_some hlocal _, getElem?_append_of_eq_some hglobal _⟩
  slot k slot hslot := by
    have hshift := getElem?_append_length_add (frameColumns state.registers)
      (heapColumns state.heap)
    simp only [length_frameColumns] at hshift
    simp only [Nat.add_assoc, hshift]
    exact getElem?_heapColumns hslot

/-- The columns of a point are laid out as those of its state. -/
theorem laidOut_pointAtom (point : ProgramPoint) (state : State) :
    LaidOut state.registers.length state.heap.length state (pointAtom point state).args :=
  laidOut_columns state

/-- The columns of an exit are laid out as those of a state whose registers are the arguments and
the result. -/
theorem laidOut_exitAtom (owner : ClassId) (method : MethodId) (arguments : List Cell)
    (result : Cell) (heap : List HeapSlot) :
    LaidOut (arguments.length + 1) heap.length ⟨arguments ++ [result], heap⟩
      (exitAtom owner method arguments result heap).args := by
  have h := laidOut_columns ⟨arguments ++ [result], heap⟩
  rw [List.length_append, List.length_singleton] at h
  exact h

/-! ## Reading states -/

/-- The bit-vector at a position. -/
def valueAt? (columns : List Term) (position : Nat) : Option BvExpr :=
  columns[position]?.bind Term.bv?

/-- The formula at a position. -/
def flagAt? (columns : List Term) (position : Nat) : Option Formula :=
  columns[position]?.bind Term.bool?

/-- The cell whose components are found in blocks of some size, from a position on. -/
def cellAt? (columns : List Term) (size position : Nat) : Option Cell := do
  let value ← valueAt? columns position
  let high ← flagAt? columns (position + size)
  let isLocal ← flagAt? columns (position + 2 * size)
  let isGlobal ← flagAt? columns (position + 3 * size)
  return ⟨value, high, isLocal, isGlobal⟩

/-- The heap slot whose components are found in blocks of some size, from a position on. -/
def slotAt? (columns : List Term) (size position : Nat) : Option HeapSlot := do
  let cell ← cellAt? columns size position
  let free ← flagAt? columns (position + 4 * size)
  return ⟨cell, free⟩

/-- The state with `n` registers and `m` heap slots that has some columns. -/
def State.ofColumns? (n m : Nat) (columns : List Term) : Option State := do
  let registers ← (List.range n).mapM (cellAt? columns n)
  let heap ← (List.range m).mapM fun k => slotAt? columns m (4 * n + k)
  return ⟨registers, heap⟩

theorem cellAt?_eq_some {columns : List Term} {size position : Nat} {cell : Cell}
    (hvalue : columns[position]? = some (.bv cell.value))
    (hhigh : columns[position + size]? = some (.bool cell.high))
    (hlocal : columns[position + 2 * size]? = some (.bool cell.isLocal))
    (hglobal : columns[position + 3 * size]? = some (.bool cell.isGlobal)) :
    cellAt? columns size position = some cell := by
  simp [cellAt?, valueAt?, flagAt?, hvalue, hhigh, hlocal, hglobal, Term.bv?, Term.bool?]

/-- A state is read back from columns that are laid out as its own. -/
theorem LaidOut.ofColumns?_eq {n m : Nat} {state : State} {columns : List Term}
    (h : LaidOut n m state columns) : State.ofColumns? n m columns = some state := by
  have hregisters : (List.range n).mapM (cellAt? columns n) = some state.registers := by
    rw [← h.registers_length]
    refine mapM_range_eq_some fun r cell hcell => ?_
    rw [h.registers_length]
    obtain ⟨hvalue, hhigh, hlocal, hglobal⟩ := h.register r cell hcell
    rw [Nat.add_comm] at hhigh hlocal hglobal
    exact cellAt?_eq_some hvalue hhigh hlocal hglobal
  have hheap : ((List.range m).mapM fun k => slotAt? columns m (4 * n + k)) = some state.heap := by
    rw [← h.heap_length]
    refine mapM_range_eq_some fun k slot hslot => ?_
    rw [h.heap_length]
    obtain ⟨hvalue, hhigh, hlocal, hglobal, hfree⟩ := h.slot k slot hslot
    rw [Nat.add_right_comm] at hhigh hlocal hglobal hfree
    simp [slotAt?, cellAt?_eq_some hvalue hhigh hlocal hglobal, flagAt?, hfree, Term.bool?]
  simp [State.ofColumns?, hregisters, hheap]

theorem LaidOut.unique {n m : Nat} {first second : State} {columns : List Term}
    (hfirst : LaidOut n m first columns) (hsecond : LaidOut n m second columns) : first = second :=
  Option.some.inj (hfirst.ofColumns?_eq.symm.trans hsecond.ofColumns?_eq)

/-! ## Points and exits -/

/-- Frames of one size leave the same number of columns to the heap. -/
theorem LaidOut.heap_length_eq {n m m' : Nat} {first second : State} {columns : List Term}
    (hfirst : LaidOut n m first columns) (hsecond : LaidOut n m' second columns) : m = m' := by
  have hcount := hfirst.columns_length.symm.trans hsecond.columns_length
  omega

theorem pointAtom_injective {point point' : ProgramPoint} {state state' : State}
    (hlength : state.registers.length = state'.registers.length)
    (h : pointAtom point state = pointAtom point' state') : point = point' ∧ state = state' := by
  have hfirst := laidOut_pointAtom point state
  have hsecond := laidOut_pointAtom point' state'
  rw [h, hlength] at hfirst
  have hheap := hfirst.heap_length_eq hsecond
  rw [hheap] at hfirst
  exact ⟨ProgramPoint.relationName_injective (congrArg Atom.relation h), hfirst.unique hsecond⟩

theorem exitAtom_injective {owner owner' : ClassId} {method method' : MethodId}
    {arguments arguments' : List Cell} {result result' : Cell} {heap heap' : List HeapSlot}
    (hlength : arguments.length = arguments'.length)
    (h : exitAtom owner method arguments result heap =
      exitAtom owner' method' arguments' result' heap') :
    (owner = owner' ∧ method = method') ∧ arguments = arguments' ∧ result = result' ∧
      heap = heap' := by
  have hfirst := laidOut_exitAtom owner method arguments result heap
  have hsecond := laidOut_exitAtom owner' method' arguments' result' heap'
  rw [h, hlength] at hfirst
  have hheap := hfirst.heap_length_eq hsecond
  rw [hheap] at hfirst
  obtain ⟨hcells, hheaps⟩ := State.mk.inj (hfirst.unique hsecond)
  obtain ⟨harguments, hresult⟩ := List.append_inj hcells hlength
  exact ⟨exitRelationName_injective (congrArg Atom.relation h), harguments,
    List.singleton_inj.mp hresult, hheaps⟩

theorem arity_pointAtom_of_length {shape : FrameShape} {state : State}
    (h : state.registers.length = shape.slotCount) (point : ProgramPoint) :
    (pointAtom point state).arity = shape.pointArity state.heap.length := by
  rw [Atom.arity, (laidOut_pointAtom point state).columns_length, h, FrameShape.pointArity]

theorem arity_exitAtom_of_length {shape : FrameShape} {arguments : List Cell}
    (h : arguments.length = shape.numArguments) (owner : ClassId) (method : MethodId)
    (result : Cell) (heap : List HeapSlot) :
    (exitAtom owner method arguments result heap).arity = shape.exitArity heap.length := by
  rw [Atom.arity, (laidOut_exitAtom owner method arguments result heap).columns_length, h,
    FrameShape.exitArity]

/-- Points and exits have the columns of their states at the positions of the layout, as many as
their frames ask for.  A state is read back from its columns and the numbers of its registers and
heap slots, and equal points, or equal exits, of the same sizes are about the same. -/
theorem state_layout_decodable :
    (∀ (point : ProgramPoint) (state : State) (n m : Nat),
      state.registers.length = n → state.heap.length = m →
        LaidOut n m state (pointAtom point state).args ∧
          State.ofColumns? n m (pointAtom point state).args = some state ∧
          ∀ shape : FrameShape, shape.slotCount = n →
            (pointAtom point state).arity = shape.pointArity m) ∧
      (∀ (owner : ClassId) (method : MethodId) (arguments : List Cell) (result : Cell)
        (heap : List HeapSlot) (n m : Nat), arguments.length = n → heap.length = m →
          LaidOut (n + 1) m ⟨arguments ++ [result], heap⟩
              (exitAtom owner method arguments result heap).args ∧
            State.ofColumns? (n + 1) m (exitAtom owner method arguments result heap).args =
              some ⟨arguments ++ [result], heap⟩ ∧
            ∀ shape : FrameShape, shape.numArguments = n →
              (exitAtom owner method arguments result heap).arity = shape.exitArity m) ∧
      (∀ (point point' : ProgramPoint) (state state' : State),
        state.registers.length = state'.registers.length →
          pointAtom point state = pointAtom point' state' → point = point' ∧ state = state') ∧
      ∀ (owner owner' : ClassId) (method method' : MethodId) (arguments arguments' : List Cell)
        (result result' : Cell) (heap heap' : List HeapSlot),
        arguments.length = arguments'.length →
          exitAtom owner method arguments result heap =
              exitAtom owner' method' arguments' result' heap' →
            (owner = owner' ∧ method = method') ∧ arguments = arguments' ∧ result = result' ∧
              heap = heap' := by
  refine ⟨?_, ?_, fun _ _ _ _ => pointAtom_injective,
    fun _ _ _ _ _ _ _ _ _ _ => exitAtom_injective⟩
  · rintro point state n m rfl rfl
    have h := laidOut_pointAtom point state
    exact ⟨h, h.ofColumns?_eq, fun shape hshape => arity_pointAtom_of_length hshape.symm point⟩
  · rintro owner method arguments result heap n m rfl rfl
    have h := laidOut_exitAtom owner method arguments result heap
    exact ⟨h, h.ofColumns?_eq,
      fun shape hshape => arity_exitAtom_of_length hshape.symm owner method result heap⟩

/-- A state of two registers and two heap slots, of which the second is empty. -/
def holdingState : State where
  registers := [.zero 8, .register 1 8]
  heap := [.canonical Names.ownHeap 0 8, .empty 8]

/-- The state is read back from a point and, with an argument and a result in place of the
registers, from an exit.  Points and exits of other heaps and arguments are others. -/
theorem state_layout_decodable_holding :
    State.ofColumns? 2 2 (pointAtom ⟨-1, 7, 0⟩ holdingState).args = some holdingState ∧
      (pointAtom ⟨-1, 7, 0⟩ holdingState).arity = FrameShape.pointArity ⟨1, 0⟩ 2 ∧
      State.ofColumns? 2 2
          (exitAtom (-1) 7 [.zero 8] (.register 1 8) holdingState.heap).args =
        some holdingState ∧
      (exitAtom (-1) 7 [.zero 8] (.register 1 8) holdingState.heap).arity =
        FrameShape.exitArity ⟨1, 1⟩ 2 ∧
      pointAtom ⟨-1, 7, 0⟩ holdingState ≠
        pointAtom ⟨-1, 7, 0⟩ { holdingState with heap := [.empty 8, .empty 8] } ∧
      exitAtom (-1) 7 [.zero 8] (.register 1 8) holdingState.heap ≠
        exitAtom (-1) 7 [.localRef (.zero 8)] (.register 1 8) holdingState.heap := by
  obtain ⟨hpoint, hexit, hpoints, hexits⟩ := state_layout_decodable
  obtain ⟨-, hread, harity⟩ := hpoint ⟨-1, 7, 0⟩ holdingState 2 2 rfl rfl
  obtain ⟨-, hread', harity'⟩ :=
    hexit (-1) 7 [.zero 8] (.register 1 8) holdingState.heap 1 2 rfl rfl
  refine ⟨hread, harity ⟨1, 0⟩ rfl, hread', harity' ⟨1, 1⟩ rfl, ?_, ?_⟩
  · intro h
    obtain ⟨-, hstates⟩ := hpoints _ _ _ _ (by rfl) h
    have hfree := congrArg (fun state => state.heap.all (·.free.isTrue)) hstates
    cases hfree
  · intro h
    obtain ⟨-, harguments, -⟩ := hexits _ _ _ _ _ _ _ _ _ _ (by rfl) h
    have hlocal := congrArg (fun cells => cells.all (·.isLocal.isFalse)) harguments
    cases hlocal

end DalvikHorn
