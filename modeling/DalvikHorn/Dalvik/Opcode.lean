import DalvikHorn.Formula.Basic

/-!
# Opcodes

The instruction set in families: instructions of one family differ in operand
width or encoding only, and have the same meaning over words of one width.
Mnemonics outside the table have no meaning here.
-/

namespace DalvikHorn

/-- Arithmetic with two operands. -/
inductive BinaryOp where
  | add | sub | mul | div | rem | and | or | xor | shl | shr | ushr
  /-- The operand is subtracted from the literal. -/
  | rsub
  deriving DecidableEq, Repr

/-- The bit-vector operator of an operation; division and remainder are unsigned. -/
def BinaryOp.bvOperator : BinaryOp → BvBinary
  | .add => .add
  | .sub => .sub
  | .rsub => .sub
  | .mul => .mul
  | .div => .udiv
  | .rem => .urem
  | .and => .and
  | .or => .or
  | .xor => .xor
  | .shl => .shl
  | .shr => .ashr
  | .ushr => .lshr

/-- Where an operation with two operands finds them. -/
inductive OperandForm where
  /-- Destination and two operands. -/
  | three
  /-- The destination is the first operand. -/
  | twoAddress
  /-- The second operand is a literal. -/
  | literal
  deriving DecidableEq, Repr

/-- Arithmetic with one operand. -/
inductive UnaryOp where
  | neg | not
  /-- A conversion between numeric types, which keeps the word. -/
  | convert
  deriving DecidableEq, Repr

/-- The condition of a branch. -/
inductive BranchCondition where
  | eq | ne | lt | ge | gt | le
  deriving DecidableEq, Repr

/-- The comparison of a condition, and whether it is negated. -/
def BranchCondition.comparison : BranchCondition → BvCompare × Bool
  | .eq => (.eq, false)
  | .ne => (.eq, true)
  | .lt => (.ult, false)
  | .ge => (.uge, false)
  | .gt => (.ugt, false)
  | .le => (.ule, false)

/-- How a call finds its target. -/
inductive InvokeKind where
  | virtual | super | direct | static | interface
  deriving DecidableEq, Repr

/-- Whether the target depends on the class of the receiver. -/
def InvokeKind.isDynamic : InvokeKind → Bool
  | .virtual => true
  | .interface => true
  | _ => false

/-- What a constant instruction loads. -/
inductive ConstKind where
  | literal | string | class_
  deriving DecidableEq, Repr

/-- The table of a switch. -/
inductive SwitchKind where
  | packed | sparse
  deriving DecidableEq, Repr

/-- The families of instructions. -/
inductive Opcode where
  | nop
  | monitor
  | move
  | moveResult
  | moveException
  | return_
  | returnVoid
  | const (kind : ConstKind)
  | checkCast
  | instanceOf
  | arrayLength
  | newInstance
  | newArray
  | filledNewArray (range : Bool)
  | fillArrayData
  | throw
  | goto
  | switch (kind : SwitchKind)
  | compare
  | branch (condition : BranchCondition) (againstZero : Bool)
  | arrayGet
  | arrayPut
  | instanceGet
  | instancePut
  | staticGet
  | staticPut
  | invoke (kind : InvokeKind) (range : Bool)
  | unary (op : UnaryOp)
  | binary (op : BinaryOp) (form : OperandForm)
  /-- The table of a switch or of array data, which is no instruction of its own. -/
  | payload
  | unsupported
  deriving DecidableEq, Repr

namespace Opcode

/-- The numeric types in mnemonics. -/
def numericTypes : List String := ["int", "long", "float", "double"]

/-- The endings of mnemonics that access memory. -/
def accessEndings : List String :=
  ["", "-wide", "-object", "-boolean", "-byte", "-char", "-short"]

/-- Some mnemonics of one family. -/
def family (opcode : Opcode) (mnemonics : List String) : List (String × Opcode) :=
  mnemonics.map (·, opcode)

/-- Moves, returns and constants. -/
def transferTable : List (String × Opcode) :=
  family .nop ["nop"] ++
  family .monitor ["monitor-enter", "monitor-exit"] ++
  family .move
    (["move", "move-wide", "move-object"].flatMap fun base =>
      ["", "/from16", "/16"].map (base ++ ·)) ++
  family .moveResult ["move-result", "move-result-wide", "move-result-object"] ++
  family .moveException ["move-exception"] ++
  family .returnVoid ["return-void"] ++
  family .return_ ["return", "return-wide", "return-object"] ++
  family (.const .literal)
    ["const/4", "const/16", "const", "const/high16", "const-wide/16", "const-wide/32",
      "const-wide", "const-wide/high16"] ++
  family (.const .string) ["const-string", "const-string/jumbo"] ++
  family (.const .class_) ["const-class"]

/-- Objects, arrays and fields. -/
def objectTable : List (String × Opcode) :=
  family .checkCast ["check-cast"] ++
  family .instanceOf ["instance-of"] ++
  family .arrayLength ["array-length"] ++
  family .newInstance ["new-instance"] ++
  family .newArray ["new-array"] ++
  family (.filledNewArray false) ["filled-new-array"] ++
  family (.filledNewArray true) ["filled-new-array/range"] ++
  family .fillArrayData ["fill-array-data"] ++
  family .arrayGet (accessEndings.map ("aget" ++ ·)) ++
  family .arrayPut (accessEndings.map ("aput" ++ ·)) ++
  family .instanceGet (accessEndings.map ("iget" ++ ·)) ++
  family .instancePut (accessEndings.map ("iput" ++ ·)) ++
  family .staticGet (accessEndings.map ("sget" ++ ·)) ++
  family .staticPut (accessEndings.map ("sput" ++ ·))

/-- Branches, switches and calls. -/
def controlTable : List (String × Opcode) :=
  family .throw ["throw"] ++
  family .goto ["goto", "goto/16", "goto/32"] ++
  family (.switch .packed) ["packed-switch"] ++
  family (.switch .sparse) ["sparse-switch"] ++
  family .payload ["packed-switch-payload", "sparse-switch-payload", "array-payload"] ++
  family .compare ["cmpl-float", "cmpg-float", "cmpl-double", "cmpg-double", "cmp-long"] ++
  ([("eq", .eq), ("ne", .ne), ("lt", .lt), ("ge", .ge), ("gt", .gt), ("le", .le)] :
    List (String × BranchCondition)).flatMap (fun (name, condition) =>
      [("if-" ++ name, .branch condition false), ("if-" ++ name ++ "z", .branch condition true)]) ++
  ([("virtual", .virtual), ("super", .super), ("direct", .direct), ("static", .static),
      ("interface", .interface)] : List (String × InvokeKind)).flatMap (fun (name, kind) =>
    [("invoke-" ++ name, .invoke kind false), ("invoke-" ++ name ++ "/range", .invoke kind true)])

/-- Arithmetic with one operand, and conversions. -/
def unaryTable : List (String × Opcode) :=
  family (.unary .neg) (numericTypes.map ("neg-" ++ ·)) ++
  family (.unary .not) (numericTypes.map ("not-" ++ ·)) ++
  family (.unary .convert)
    (numericTypes.flatMap fun source =>
      ((numericTypes ++ ["byte", "char", "short"]).filter (· != source)).map fun target =>
        source ++ "-to-" ++ target)

/-- Arithmetic with two operands. -/
def binaryTable : List (String × Opcode) :=
  ([("add", .add), ("sub", .sub), ("mul", .mul), ("div", .div), ("rem", .rem), ("and", .and),
      ("or", .or), ("xor", .xor), ("shl", .shl), ("shr", .shr), ("ushr", .ushr)] :
    List (String × BinaryOp)).flatMap (fun (name, op) =>
      family (.binary op .three) (numericTypes.map fun type => name ++ "-" ++ type) ++
      family (.binary op .twoAddress)
        (numericTypes.map fun type => name ++ "-" ++ type ++ "/2addr") ++
      family (.binary op .literal) [name ++ "-int/lit8", name ++ "-int/lit16"]) ++
  family (.binary .rsub .literal) ["rsub-int", "rsub-int/lit8"]

/-- All mnemonics. -/
def table : List (String × Opcode) :=
  transferTable ++ objectTable ++ controlTable ++ unaryTable ++ binaryTable

/-- The family of a mnemonic. -/
def ofMnemonic (mnemonic : String) : Opcode :=
  (table.lookup mnemonic).getD .unsupported

/-- Whether control never goes on to the next instruction. -/
def endsBlock : Opcode → Bool
  | .return_ => true
  | .returnVoid => true
  | .goto => true
  | .throw => true
  | _ => false

end Opcode

end DalvikHorn
