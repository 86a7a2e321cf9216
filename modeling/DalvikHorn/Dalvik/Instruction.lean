import DalvikHorn.Dalvik.Descriptor
import DalvikHorn.Dalvik.Opcode

/-!
# Instructions

An instruction has a position, a mnemonic and operands.  Which operands are
present depends on the mnemonic, so each accessor fails when its operand is
missing.

Positions and registers are numbers of 32 bits, and their sums wrap, as in a build
without overflow checks.
-/

namespace DalvikHorn

/-- Consecutive registers. -/
structure RegisterRange where
  start : UInt32
  count : UInt32
  deriving DecidableEq, Repr

namespace RegisterRange

variable (range : RegisterRange)

/-- The register behind a range.  The sum wraps, and is not behind the start when it does. -/
def stop : UInt32 :=
  range.start + range.count

/-- The registers of a range, from its start to the one before its end: none of them when the
end has wrapped. -/
def registers : List UInt32 :=
  (List.range' range.start.toNat (range.stop.toNat - range.start.toNat)).map UInt32.ofNat

end RegisterRange

/-- The table of a switch, or the elements of an array. -/
inductive Payload where
  /-- Consecutive keys, each with a target relative to the switch. -/
  | packedSwitch (firstKey : Int32) (targets : List Int32)
  /-- Keys with targets relative to the switch. -/
  | sparseSwitch (entries : List (Int32 × Int32))
  | arrayData (elements : List Int64)
  deriving DecidableEq, Repr

namespace Payload

/-- The keys and relative targets of a switch; consecutive keys wrap. -/
def switchEntries : Payload → Except Error (List (Int32 × Int32))
  | .packedSwitch firstKey targets =>
      .ok (targets.mapIdx fun i target => (firstKey + Int32.ofNat i, target))
  | .sparseSwitch entries => .ok entries
  | .arrayData _ => .error .arrayDataAsSwitch

/-- The elements of array data. -/
def arrayElements : Payload → Except Error (List Int64)
  | .arrayData elements => .ok elements
  | _ => .error .switchAsArrayData

end Payload

/-- An instruction of a method. -/
structure Instruction where
  pc : UInt32
  mnemonic : String
  registers : List UInt32 := []
  registerRange : Option RegisterRange := none
  literal : Option Int64 := none
  /-- A type, field, method or string. -/
  reference : Option String := none
  /-- The distance to a branch target or payload. -/
  target : Option Int32 := none
  payload : Option Payload := none
  deriving DecidableEq, Repr

/-- The instruction at a distance, which may not lie outside the range of positions. -/
def relativePc (pc : UInt32) (offset : Int32) : Except Error UInt32 :=
  let target := (pc.toNat : Int) + offset.toInt
  if 0 ≤ target ∧ target < UInt32.size then
    .ok (UInt32.ofNat target.toNat)
  else
    .error (.branchOutOfRange pc offset)

namespace Instruction

variable (instruction : Instruction)

/-- The family of an instruction. -/
def opcode : Opcode :=
  .ofMnemonic instruction.mnemonic

/-- The register operand at an index. -/
def register (index : Nat) : Except Error UInt32 :=
  match instruction.registers[index]? with
  | some register => .ok register
  | none => .error (.missingRegister instruction.mnemonic instruction.pc index)

/-- The registers that a call passes or an array is filled from. -/
def argumentRegisters : List UInt32 :=
  match instruction.registerRange with
  | some range => range.registers
  | none => instruction.registers

/-- The literal operand. -/
def getLiteral : Except Error Int64 :=
  match instruction.literal with
  | some literal => .ok literal
  | none => .error (.missingLiteral instruction.mnemonic instruction.pc)

/-- The reference operand. -/
def getReference : Except Error String :=
  match instruction.reference with
  | some reference => .ok reference
  | none => .error (.missingReference instruction.mnemonic instruction.pc)

/-- The position of the branch target. -/
def branchTarget : Except Error UInt32 :=
  match instruction.target with
  | some offset => relativePc instruction.pc offset
  | none => .error (.missingTarget instruction.mnemonic instruction.pc)

end Instruction

end DalvikHorn
