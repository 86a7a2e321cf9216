import DalvikHorn.Clause
import DalvikHorn.Error
import DalvikHorn.Frame
import DalvikHorn.State.Cell

/-!
# Symbolic states

A state is the frame of a method together with the local heap.  The reachable
states of a program point form a relation, whose columns are the components of
the state in blocks: all values, all labels, all local flags and all global
flags of the frame, then the same blocks and the free flags of the heap.  The
exits of a method form a relation with the same layout, over the argument copies
and the result.
-/

namespace DalvikHorn

/-- The frame of a method and the local heap. -/
structure State where
  registers : List Cell
  heap : List HeapSlot
  deriving Inhabited

namespace State

/-! ## Construction -/

/-- The state over its variables. -/
def canonical (shape : FrameShape) (heapSize width : Nat) : State where
  registers := (List.range shape.slotCount).map fun i => .register i width
  heap := canonicalHeap Names.ownHeap heapSize width

/-- The state whose frame is zero. -/
def zeroed (shape : FrameShape) (heap : List HeapSlot) (width : Nat) : State where
  registers := List.replicate shape.slotCount (.zero width)
  heap := heap

/-! ## Access -/

variable (state : State)

/-- The cell of a register. -/
def register (r : Nat) : Except Error Cell :=
  match state.registers[r]? with
  | some cell => .ok cell
  | none => .error (.registerOutOfRange r state.registers.length)

/-- A slot of the heap. -/
def slot (k : Nat) : Except Error HeapSlot :=
  match state.heap[k]? with
  | some slot => .ok slot
  | none => .error (.heapSlotOutOfRange k state.heap.length)

/-! ## Update -/

/-- A state with another cell in a register. -/
def set (r : Nat) (cell : Cell) : Except Error State :=
  if r < state.registers.length then
    .ok { state with registers := state.registers.set r cell }
  else
    .error (.registerOutOfRange r state.registers.length)

/-- A state in which the label of a register also covers `taint`. -/
def taint (r : Nat) (taint : Formula) : Except Error State := do
  let cell ← state.register r
  state.set r (cell.taint taint)

/-- A state in which the first `count` registers are changed. -/
def mapRegisters (count : Nat) (change : Nat → Cell → Cell) : State :=
  { state with
    registers := state.registers.mapIdx fun i cell => if i < count then change i cell else cell }

/-- A state with another slot in its heap. -/
def setSlot (k : Nat) (slot : HeapSlot) : Except Error State :=
  if k < state.heap.length then
    .ok { state with heap := state.heap.set k slot }
  else
    .error (.heapSlotOutOfRange k state.heap.length)

/-- A state with another heap. -/
def withHeap (heap : List HeapSlot) : State :=
  { state with heap := heap }

end State

/-! ## Relations -/

/-- The columns of a frame. -/
def frameColumns (registers : List Cell) : List Term :=
  registers.map (fun cell => .bv cell.value) ++
    registers.map (fun cell => .bool cell.high) ++
    registers.map (fun cell => .bool cell.isLocal) ++
    registers.map (fun cell => .bool cell.isGlobal)

/-- The columns of a local heap. -/
def heapColumns (heap : List HeapSlot) : List Term :=
  frameColumns (heap.map (·.cell)) ++ heap.map (fun slot => .bool slot.free)

/-- The atom that a state is reachable at a point. -/
def pointAtom (point : ProgramPoint) (state : State) : Atom where
  relation := point.relationName
  args := frameColumns state.registers ++ heapColumns state.heap

/-- The atom that a method exits with a result and a heap when called with some
arguments. -/
def exitAtom (owner : ClassId) (method : MethodId) (arguments : List Cell) (result : Cell)
    (heap : List HeapSlot) : Atom where
  relation := exitRelationName owner method
  args := frameColumns (arguments ++ [result]) ++ heapColumns heap

end DalvikHorn
