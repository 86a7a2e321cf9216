/-!
# Register frames

The frame of a method has one slot per register, of which the last
`numArguments` hold the incoming parameters, then the return slot, then one copy
of every argument.  The copies are never written, so an exit can be matched with
the entry that it answers.

The numbers of slots are unbounded here.  In words of 32 bits the slots are counted
by `FrameShape.countSlots`, whose sums wrap as in a build without overflow checks.
Under `FrameShape.SlotsFit` it is the same count, and no number of a slot overflows.
-/

namespace DalvikHorn

/-- The shape of a method's frame. -/
structure FrameShape where
  numRegisters : Nat
  numArguments : Nat
  deriving DecidableEq, Repr

namespace FrameShape

variable (shape : FrameShape)

/-- Registers, return slot and argument copies. -/
def slotCount : Nat :=
  shape.numRegisters + shape.numArguments + 1

/-- The slot count in words of 32 bits. -/
def countSlots : UInt32 :=
  UInt32.ofNat shape.numRegisters + UInt32.ofNat shape.numArguments + 1

/-- The slots can be counted in words of 32 bits. -/
def SlotsFit : Prop :=
  shape.slotCount < UInt32.size

instance : Decidable shape.SlotsFit :=
  inferInstanceAs (Decidable (shape.slotCount < UInt32.size))

/-- The slot that receives the results of calls. -/
def returnSlot : Nat :=
  shape.numRegisters

/-- The parameters have to fit into the registers. -/
def WellFormed : Prop :=
  shape.numArguments ≤ shape.numRegisters

instance : Decidable shape.WellFormed :=
  inferInstanceAs (Decidable (shape.numArguments ≤ shape.numRegisters))

/-- The register that holds parameter `i` on entry.  A frame whose parameters do
not fit has none. -/
def parameterRegister? (i : Nat) : Option Nat :=
  if shape.WellFormed then some (shape.numRegisters - shape.numArguments + i) else none

/-- The slot that keeps parameter `i` for the exit. -/
def argumentCopy (i : Nat) : Nat :=
  shape.numRegisters + 1 + i

/-- The number of columns of a point relation: four per slot of the frame and
five per slot of the local heap. -/
def pointArity (heapSize : Nat) : Nat :=
  4 * shape.slotCount + 5 * heapSize

/-- The number of columns of an exit relation: the arguments, the result and the
local heap. -/
def exitArity (heapSize : Nat) : Nat :=
  4 * (shape.numArguments + 1) + 5 * heapSize

end FrameShape

end DalvikHorn
