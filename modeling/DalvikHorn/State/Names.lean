/-!
# Variable names

All clauses share their variables.  The state before an instruction is always
written over the same names, one family per component of a register and of a
slot of the local heap, and so is the heap that a call returns.  The remaining
names are auxiliary.  A name determines the sort that it is used at.
-/

namespace DalvikHorn.Names

/-! ## Registers -/

/-- The value of a register. -/
def value (i : Nat) : String := s!"v{i}"

/-- The secrecy label of a register. -/
def high (i : Nat) : String := s!"h{i}"

/-- Whether a register refers to the local heap. -/
def isLocal (i : Nat) : String := s!"l{i}"

/-- Whether a register refers to the global heap. -/
def isGlobal (i : Nat) : String := s!"g{i}"

/-! ## Local heaps -/

/-- The start of the names of the local heap before an instruction. -/
def ownHeap : String := "lh"

/-- The start of the names of the local heap that a call returns. -/
def returnedHeap : String := "lhc"

/-- The value of a heap slot. -/
def slotValue (heap : String) (k : Nat) : String := s!"{heap}v{k}"

/-- The secrecy label of a heap slot. -/
def slotHigh (heap : String) (k : Nat) : String := s!"{heap}h{k}"

/-- Whether a heap slot refers to the local heap. -/
def slotLocal (heap : String) (k : Nat) : String := s!"{heap}l{k}"

/-- Whether a heap slot refers to the global heap. -/
def slotGlobal (heap : String) (k : Nat) : String := s!"{heap}g{k}"

/-- Whether a heap slot is free. -/
def slotFree (heap : String) (k : Nat) : String := s!"{heap}f{k}"

/-! ## Auxiliary bit-vectors -/

/-- A field or an activity. -/
def field : String := "f"

/-- Any field of an activity. -/
def anyField : String := "fpp"

/-- The value of any field of an activity. -/
def anyValue : String := "vfp"

/-- A value read from a heap. -/
def read : String := "val"

/-- The result of a call. -/
def result : String := "rez"

/-- A buffer. -/
def buffer : String := "buf"

/-- A class. -/
def className : String := "cn"

/-! ## Auxiliary Booleans -/

/-- The label of a field. -/
def fieldHigh : String := "lf"

/-- Whether a field holds a reference. -/
def fieldBlocked : String := "bf"

/-- The label of any field of an activity. -/
def anyHigh : String := "lfp"

/-- Whether any field of an activity holds a reference. -/
def anyBlocked : String := "bfp"

/-- The label of a value read from a heap. -/
def readHigh : String := "lval"

/-- Whether a value read from a heap is a reference. -/
def readBlocked : String := "bval"

/-- The label of the result of a call. -/
def resultHigh : String := "hrez"

/-- Whether the result of a call refers to the local heap. -/
def resultLocal : String := "lrez"

/-- Whether the result of a call refers to the global heap. -/
def resultGlobal : String := "grez"

end DalvikHorn.Names
