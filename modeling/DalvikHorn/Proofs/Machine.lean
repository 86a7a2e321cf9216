import DalvikHorn.Proofs.StateFacts
import DalvikHorn.Proofs.Words

/-!
# A machine for scalar code

A small-step machine for the instructions that neither allocate nor call: moves,
constants, arithmetic, branches, switches and returns.  Its registers hold words
of a fixed width with a secrecy label and the two location flags.  The machine is
defined without clauses, valuations or symbolic states; `Proofs/Adequacy.lean`
shows that the clauses of a method derive exactly what the machine reaches.
-/

namespace DalvikHorn

/-! ## Registers -/

/-- A register of the machine. -/
@[ext] structure Register (w : Nat) where
  value : BitVec w
  high : Bool
  isLocal : Bool
  isGlobal : Bool
  deriving DecidableEq, Repr

namespace Register

variable {w : Nat}

/-- A value that is no reference. -/
def scalar (value : BitVec w) (high : Bool) : Register w where
  value := value
  high := high
  isLocal := false
  isGlobal := false

/-- The public zero. -/
def zero : Register w :=
  scalar 0 false

/-- An argument of an entry point: a public value, which may be a reference to the global
heap. -/
def argument (value : BitVec w) (isGlobal : Bool) : Register w where
  value := value
  high := false
  isLocal := false
  isGlobal := isGlobal

/-- The columns of a register. -/
def cellValue (register : Register w) : CellValue where
  value := register.value.toNat
  high := register.high
  isLocal := register.isLocal
  isGlobal := register.isGlobal

theorem cellValue_injective {first second : Register w} (h : first.cellValue = second.cellValue) :
    first = second := by
  simp only [cellValue, CellValue.mk.injEq] at h
  exact Register.ext (BitVec.eq_of_toNat_eq h.1) h.2.1 h.2.2.1 h.2.2.2

end Register

/-- The state of a frame of the machine, which has no local heap. -/
def frameState {w : Nat} (frame : List (Register w)) : StateValue where
  registers := frame.map Register.cellValue
  heap := []

theorem frameState_injective {w : Nat} {first second : List (Register w)}
    (h : frameState first = frameState second) : first = second :=
  (List.map_inj_right fun _ _ => Register.cellValue_injective).mp (congrArg StateValue.registers h)

/-- The columns of a frame determine it. -/
theorem pointFact_frameState_injective {w : Nat} {position : ProgramPoint}
    {first second : List (Register w)}
    (h : pointFact position (frameState first) = pointFact position (frameState second)) :
    first = second := by
  have hlength : (frameState first).registers.length = (frameState second).registers.length := by
    have hcolumns := congrArg (·.args.length) h
    simp only [pointFact, List.length_append, length_frameValues, frameState] at hcolumns ⊢
    omega
  exact frameState_injective (pointFact_injective hlength h).2

/-! ## Operations -/

/-- An operation with one operand; a conversion keeps the word. -/
def UnaryOp.word {w : Nat} (op : UnaryOp) (a : BitVec w) : BitVec w :=
  match op with
  | .neg => -a
  | .not => ~~~a
  | .convert => a

/-- An operation with two operands.  Division and remainder are unsigned, and by zero they give
all ones and the dividend. -/
def BinaryOp.word {w : Nat} (op : BinaryOp) (a b : BitVec w) : BitVec w :=
  match op with
  | .add => a + b
  | .sub => a - b
  | .rsub => a - b
  | .mul => a * b
  | .div => a.smtUDiv b
  | .rem => a % b
  | .and => a &&& b
  | .or => a ||| b
  | .xor => a ^^^ b
  | .shl => a <<< b
  | .shr => a.sshiftRight' b
  | .ushr => a >>> b

/-- Whether a condition holds for two words, which are compared unsigned. -/
def BranchCondition.holds {w : Nat} (condition : BranchCondition) (a b : BitVec w) : Bool :=
  match condition with
  | .eq => a == b
  | .ne => a != b
  | .lt => a.ult b
  | .ge => b.ule a
  | .gt => b.ult a
  | .le => a.ule b

/-- The result of a comparison: zero for equal words, one when the first is greater, and minus
one otherwise. -/
def compareWords {w : Nat} (a b : BitVec w) : BitVec w :=
  if a = b then 0 else if b.ult a then 1 else -1

/-! ## Instructions -/

namespace Instruction

variable {w : Nat} (instruction : Instruction) (frame : List (Register w))

/-- The register that an operand names. -/
def operand? (index : Nat) : Option (Register w) :=
  instruction.registers[index]?.bind fun r => frame[r.toNat]?

/-- What a binary operation computes from the operands that its form has.  The label of the
result joins those of the operands. -/
def binaryResult? (op : BinaryOp) : OperandForm → Option (Register w)
  | .three =>
      (instruction.operand? frame 1).bind fun left => (instruction.operand? frame 2).map fun right =>
        .scalar (op.word left.value right.value) (left.high || right.high)
  | .twoAddress =>
      (instruction.operand? frame 0).bind fun left => (instruction.operand? frame 1).map fun right =>
        .scalar (op.word left.value right.value) (left.high || right.high)
  | .literal =>
      (instruction.operand? frame 1).bind fun operand => instruction.literal.map fun literal =>
        let word := BitVec.ofInt w literal.toInt
        .scalar (if op = .rsub then op.word word operand.value else op.word operand.value word)
          operand.high

/-- What an instruction writes into its first register, if it writes. -/
def result? : Option (Register w) :=
  match instruction.opcode with
  | .move => instruction.operand? frame 1
  | .const .literal =>
      instruction.literal.map fun literal => .scalar (.ofInt w literal.toInt) false
  | .const _ =>
      instruction.reference.map fun text => .scalar (.ofInt w (textHash text).toInt) false
  | .unary op =>
      (instruction.operand? frame 1).map fun source => .scalar (op.word source.value) source.high
  | .binary op form => instruction.binaryResult? frame op form
  | .compare =>
      (instruction.operand? frame 1).bind fun left => (instruction.operand? frame 2).map fun right =>
        .scalar (compareWords left.value right.value) (left.high || right.high)
  | _ => none

/-- The word that a branch compares its first operand with. -/
def comparand? (againstZero : Bool) : Option (BitVec w) :=
  if againstZero then some 0 else (instruction.operand? frame 1).map (·.value)

/-- The position at a distance from an instruction. -/
def AtDistance (offset : Int32) (target : UInt32) : Prop :=
  (target.toNat : Int) = instruction.pc.toNat + offset.toInt

/-- The table of a switch. -/
def switchTable? : Option (List (Int32 × Int32)) :=
  match instruction.payload with
  | some (.packedSwitch firstKey targets) =>
      some (targets.mapIdx fun i target => (firstKey + Int32.ofNat i, target))
  | some (.sparseSwitch entries) => some entries
  | _ => none

/-- Whether the position at a distance exists. -/
def hasPosition (offset : Int32) : Bool :=
  let target := (instruction.pc.toNat : Int) + offset.toInt
  decide (0 ≤ target) && decide (target < UInt32.size)

/-- Whether the machine has the instruction and all operands are there. -/
def isScalar : Bool :=
  let hasRegisters := fun count => decide (count ≤ instruction.registers.length)
  match instruction.opcode with
  | .nop => true
  | .monitor => true
  | .returnVoid => true
  | .return_ => hasRegisters 1
  | .move => hasRegisters 2
  | .const .literal => hasRegisters 1 && instruction.literal.isSome
  | .const _ => hasRegisters 1 && instruction.reference.isSome
  | .unary _ => hasRegisters 2
  | .binary _ .three => hasRegisters 3
  | .binary _ .twoAddress => hasRegisters 2
  | .binary _ .literal => hasRegisters 2 && instruction.literal.isSome
  | .compare => hasRegisters 3
  | .branch _ againstZero =>
      hasRegisters (if againstZero then 1 else 2) && instruction.target.any instruction.hasPosition
  | .goto => instruction.target.any instruction.hasPosition
  | .switch _ =>
      hasRegisters 1 && instruction.switchTable?.any fun entries =>
        entries.all fun entry => instruction.hasPosition entry.2
  | _ => false

/-- Executing an instruction whose successor is `next`. -/
inductive Executes (next : UInt32) : UInt32 → List (Register w) → Prop
  /-- The instruction writes its first register. -/
  | assign {destination : UInt32} {register : Register w}
      (hdestination : instruction.registers[0]? = some destination)
      (hresult : instruction.result? frame = some register) :
      Executes next next (frame.set destination.toNat register)
  | skip (hopcode : instruction.opcode = .nop ∨ instruction.opcode = .monitor) :
      Executes next next frame
  | goto {offset : Int32} {target : UInt32} (hopcode : instruction.opcode = .goto)
      (hoffset : instruction.target = some offset)
      (htarget : instruction.AtDistance offset target) : Executes next target frame
  | taken {condition : BranchCondition} {againstZero : Bool} {offset : Int32} {target : UInt32}
      {left : Register w} {right : BitVec w}
      (hopcode : instruction.opcode = .branch condition againstZero)
      (hoffset : instruction.target = some offset) (htarget : instruction.AtDistance offset target)
      (hleft : instruction.operand? frame 0 = some left)
      (hright : instruction.comparand? frame againstZero = some right)
      (hholds : condition.holds left.value right = true) : Executes next target frame
  | notTaken {condition : BranchCondition} {againstZero : Bool} {left : Register w}
      {right : BitVec w} (hopcode : instruction.opcode = .branch condition againstZero)
      (hleft : instruction.operand? frame 0 = some left)
      (hright : instruction.comparand? frame againstZero = some right)
      (hholds : condition.holds left.value right = false) : Executes next next frame
  /-- A switch goes to any entry whose key is the scrutinee. -/
  | switched {kind : SwitchKind} {scrutinee : Register w} {entries : List (Int32 × Int32)}
      {key offset : Int32} {target : UInt32} (hopcode : instruction.opcode = .switch kind)
      (hscrutinee : instruction.operand? frame 0 = some scrutinee)
      (htable : instruction.switchTable? = some entries) (hentry : (key, offset) ∈ entries)
      (hkey : scrutinee.value = .ofInt w key.toInt)
      (htarget : instruction.AtDistance offset target) : Executes next target frame
  /-- A switch without such an entry goes on. -/
  | unmatched {kind : SwitchKind} {scrutinee : Register w} {entries : List (Int32 × Int32)}
      (hopcode : instruction.opcode = .switch kind)
      (hscrutinee : instruction.operand? frame 0 = some scrutinee)
      (htable : instruction.switchTable? = some entries)
      (hnone : ∀ entry ∈ entries, scrutinee.value ≠ .ofInt w entry.1.toInt) :
      Executes next next frame

variable {instruction} {frame} {next pc : UInt32} {after : List (Register w)}

/-- An instruction that computes a result writes it and goes on. -/
theorem executes_iff_of_result? {destination : UInt32} {register : Register w}
    (hdestination : instruction.registers[0]? = some destination)
    (hresult : instruction.result? frame = some register) :
    instruction.Executes frame next pc after ↔
      pc = next ∧ after = frame.set destination.toNat register := by
  constructor
  · intro h
    cases h with
    | assign hdestination' hresult' => simp_all
    | skip hopcode => rcases hopcode with hopcode | hopcode <;> simp [result?, hopcode] at hresult
    | goto hopcode => simp [result?, hopcode] at hresult
    | taken hopcode => simp [result?, hopcode] at hresult
    | notTaken hopcode => simp [result?, hopcode] at hresult
    | switched hopcode => simp [result?, hopcode] at hresult
    | unmatched hopcode => simp [result?, hopcode] at hresult
  · rintro ⟨rfl, rfl⟩
    exact .assign hdestination hresult

theorem executes_iff_of_skip (hopcode : instruction.opcode = .nop ∨ instruction.opcode = .monitor) :
    instruction.Executes frame next pc after ↔ pc = next ∧ after = frame := by
  constructor
  · intro h
    cases h with
    | assign _ hresult => rcases hopcode with hopcode | hopcode <;> simp [result?, hopcode] at hresult
    | skip => exact ⟨rfl, rfl⟩
    | goto hother => simp [hother] at hopcode
    | taken hother => simp [hother] at hopcode
    | notTaken hother => simp [hother] at hopcode
    | switched hother => simp [hother] at hopcode
    | unmatched hother => simp [hother] at hopcode
  · rintro ⟨rfl, rfl⟩
    exact .skip hopcode

theorem executes_iff_of_goto (hopcode : instruction.opcode = .goto) {offset : Int32}
    (hoffset : instruction.target = some offset) :
    instruction.Executes frame next pc after ↔ instruction.AtDistance offset pc ∧ after = frame := by
  constructor
  · intro h
    cases h with
    | assign _ hresult => simp [result?, hopcode] at hresult
    | skip hother => simp [hopcode] at hother
    | goto _ hother htarget =>
        cases hoffset.symm.trans hother
        exact ⟨htarget, rfl⟩
    | taken hother => simp [hopcode] at hother
    | notTaken hother => simp [hopcode] at hother
    | switched hother => simp [hopcode] at hother
    | unmatched hother => simp [hopcode] at hother
  · rintro ⟨htarget, rfl⟩
    exact .goto hopcode hoffset htarget

theorem executes_iff_of_branch {condition : BranchCondition} {againstZero : Bool}
    (hopcode : instruction.opcode = .branch condition againstZero) {offset : Int32}
    (hoffset : instruction.target = some offset) {left : Register w} {right : BitVec w}
    (hleft : instruction.operand? frame 0 = some left)
    (hright : instruction.comparand? frame againstZero = some right) :
    instruction.Executes frame next pc after ↔
      (if condition.holds left.value right then instruction.AtDistance offset pc else pc = next) ∧
        after = frame := by
  constructor
  · intro h
    -- only the two rules for branches apply, and both read the same operands
    cases h with
    | assign _ hresult => simp [result?, hopcode] at hresult
    | skip hother => simp [hopcode] at hother
    | goto hother => simp [hopcode] at hother
    | taken hopcode' hoffset' htarget hleft' hright' hholds =>
        cases hopcode.symm.trans hopcode'
        cases hoffset.symm.trans hoffset'
        cases hleft.symm.trans hleft'
        cases hright.symm.trans hright'
        exact ⟨by rw [if_pos hholds]; exact htarget, rfl⟩
    | notTaken hopcode' hleft' hright' hholds =>
        cases hopcode.symm.trans hopcode'
        cases hleft.symm.trans hleft'
        cases hright.symm.trans hright'
        exact ⟨by rw [if_neg (by simp [hholds])], rfl⟩
    | switched hother => simp [hopcode] at hother
    | unmatched hother => simp [hopcode] at hother
  · rintro ⟨hpc, rfl⟩
    -- the operands decide which of the two rules is taken
    by_cases hholds : condition.holds left.value right = true
    · rw [if_pos hholds] at hpc
      exact .taken hopcode hoffset hpc hleft hright hholds
    · rw [if_neg hholds] at hpc
      subst hpc
      exact .notTaken hopcode hleft hright (by simpa using hholds)

theorem executes_iff_of_switch {kind : SwitchKind} (hopcode : instruction.opcode = .switch kind)
    {scrutinee : Register w} (hscrutinee : instruction.operand? frame 0 = some scrutinee)
    {entries : List (Int32 × Int32)} (htable : instruction.switchTable? = some entries) :
    instruction.Executes frame next pc after ↔
      ((∃ entry ∈ entries, scrutinee.value = .ofInt w entry.1.toInt ∧
          instruction.AtDistance entry.2 pc) ∨
        (∀ entry ∈ entries, scrutinee.value ≠ .ofInt w entry.1.toInt) ∧ pc = next) ∧
        after = frame := by
  constructor
  · intro h
    cases h with
    | assign _ hresult => simp [result?, hopcode] at hresult
    | skip hother => simp [hopcode] at hother
    | goto hother => simp [hopcode] at hother
    | taken hother => simp [hopcode] at hother
    | notTaken hother => simp [hopcode] at hother
    | switched _ hscrutinee' htable' hentry hkey htarget =>
        cases hscrutinee.symm.trans hscrutinee'
        cases htable.symm.trans htable'
        exact ⟨.inl ⟨_, hentry, hkey, htarget⟩, rfl⟩
    | unmatched _ hscrutinee' htable' hnone =>
        cases hscrutinee.symm.trans hscrutinee'
        cases htable.symm.trans htable'
        exact ⟨.inr ⟨hnone, rfl⟩, rfl⟩
  · rintro ⟨⟨entry, hentry, hkey, htarget⟩ | ⟨hnone, rfl⟩, rfl⟩
    · exact .switched hopcode hscrutinee htable hentry hkey htarget
    · exact .unmatched hopcode hscrutinee htable hnone

/-- A return has no successor. -/
theorem not_executes_of_return
    (hopcode : instruction.opcode = .return_ ∨ instruction.opcode = .returnVoid) :
    ¬ instruction.Executes frame next pc after := by
  intro h
  cases h with
  | assign _ hresult => rcases hopcode with hopcode | hopcode <;> simp [result?, hopcode] at hresult
  | skip hother => rcases hopcode with hopcode | hopcode <;> simp [hopcode] at hother
  | goto hother => simp [hother] at hopcode
  | taken hother => simp [hother] at hopcode
  | notTaken hother => simp [hother] at hopcode
  | switched hother => simp [hother] at hopcode
  | unmatched hother => simp [hother] at hopcode

end Instruction

/-! ## Methods -/

/-- The frame of a method that is entered with some arguments: they are in the parameter
registers and in the argument copies, and all else is zero. -/
def FrameShape.entryFrame {w : Nat} (shape : FrameShape) (arguments : List (Register w)) :
    List (Register w) :=
  List.replicate (shape.numRegisters - shape.numArguments) .zero ++ arguments ++ [.zero] ++ arguments

namespace Method

variable (method : Method)

/-- The successor of an instruction: the next one of the method, or the position right behind
the last. -/
inductive Follows : Instruction → UInt32 → Prop
  | next {before after : List Instruction} {instruction successor : Instruction}
      (h : method.instructions = before ++ instruction :: successor :: after) :
      Follows instruction successor.pc
  | last {before : List Instruction} {instruction : Instruction}
      (h : method.instructions = before ++ [instruction]) :
      Follows instruction (instruction.pc + 1)

/-- A frame in which an entry point starts, for arbitrary public arguments. -/
def Starts {w : Nat} (frame : List (Register w)) : Prop :=
  ∃ arguments : List (Register w), arguments.length = method.shape.numArguments ∧
    (∀ argument ∈ arguments, ∃ value isGlobal, argument = .argument value isGlobal) ∧
    frame = method.shape.entryFrame arguments

/-- The configurations that the machine reaches: a position and a frame. -/
inductive Reaches {w : Nat} : UInt32 → List (Register w) → Prop
  | start {frame : List (Register w)} (hframe : method.Starts frame) : Reaches 0 frame
  | step {instruction : Instruction} {next pc : UInt32} {frame after : List (Register w)}
      (hreaches : Reaches instruction.pc frame) (hnext : method.Follows instruction next)
      (hexecutes : instruction.Executes frame next pc after) : Reaches pc after

end Method

end DalvikHorn
