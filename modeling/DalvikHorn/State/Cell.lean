import DalvikHorn.Formula.Basic
import DalvikHorn.State.Names

/-!
# Cells

A register, or a slot of the local heap, holds a value, its secrecy label, and
two flags that tell on which heap the object lies that the value refers to.  A
value that is no reference has neither flag.
-/

namespace DalvikHorn

/-- A symbolic value with its label and location. -/
structure Cell where
  value : BvExpr
  /-- Whether the value is secret. -/
  high : Formula
  /-- Whether the value refers to the local heap. -/
  isLocal : Formula
  /-- Whether the value refers to the global heap. -/
  isGlobal : Formula
  deriving Inhabited

namespace Cell

/-- A value that is no reference. -/
def scalar (value : BvExpr) (high : Formula) : Cell where
  value := value
  high := high
  isLocal := .ff
  isGlobal := .ff

/-- The public zero. -/
def zero (width : Nat) : Cell :=
  scalar (.zero width) .ff

/-- A public reference to an object on the local heap. -/
def localRef (object : BvExpr) : Cell where
  value := object
  high := .ff
  isLocal := .tt
  isGlobal := .ff

/-- A reference to an object on the global heap. -/
def globalRef (object : BvExpr) (high : Formula) : Cell where
  value := object
  high := high
  isLocal := .ff
  isGlobal := .tt

/-- Register `i` over its variables. -/
def register (i width : Nat) : Cell where
  value := .var (Names.value i) width
  high := .var (Names.high i)
  isLocal := .var (Names.isLocal i)
  isGlobal := .var (Names.isGlobal i)

/-- Whether a cell holds a reference.  This is what a global heap keeps of the location. -/
def blocked (cell : Cell) : Formula :=
  cell.isLocal.either cell.isGlobal

/-- A cell with another label. -/
def withHigh (cell : Cell) (high : Formula) : Cell :=
  { cell with high := high }

/-- A cell with a label that also covers `taint`. -/
def taint (cell : Cell) (taint : Formula) : Cell :=
  cell.withHigh (cell.high.either taint)

/-- A cell after its object has moved to the global heap. -/
def promote (cell : Cell) : Cell :=
  { cell with isLocal := .ff, isGlobal := cell.isGlobal.either cell.isLocal }

/-- The four columns of a cell. -/
def terms (cell : Cell) : List Term :=
  [.bv cell.value, .bool cell.high, .bool cell.isLocal, .bool cell.isGlobal]

end Cell

/-- A slot of the local heap: a cell, and whether nothing has been stored there. -/
structure HeapSlot where
  cell : Cell
  free : Formula
  deriving Inhabited

namespace HeapSlot

/-- A slot that nothing has been stored in. -/
def empty (width : Nat) : HeapSlot where
  cell := .zero width
  free := .tt

/-- A slot of an object that has just been allocated. -/
def allocated (width : Nat) : HeapSlot where
  cell := .zero width
  free := .ff

/-- Slot `k` of a heap over its variables. -/
def canonical (heap : String) (k width : Nat) : HeapSlot where
  cell :=
    { value := .var (Names.slotValue heap k) width
      high := .var (Names.slotHigh heap k)
      isLocal := .var (Names.slotLocal heap k)
      isGlobal := .var (Names.slotGlobal heap k) }
  free := .var (Names.slotFree heap k)

end HeapSlot

/-- A local heap over its variables. -/
def canonicalHeap (heap : String) (size width : Nat) : List HeapSlot :=
  (List.range size).map fun k => .canonical heap k width

end DalvikHorn
