import DalvikHorn.Dalvik.Instruction
import DalvikHorn.Frame

/-!
# Programs

A program is a list of classes with their fields and methods.  Nothing forbids
repeated classes or methods, cyclic inheritance or dangling references; every
use of a program has to say what it does with them.
-/

namespace DalvikHorn

/-! ## Fields -/

/-- A field of a class. -/
structure Field where
  name : String
  type : String
  isStatic : Bool := false
  /-- The value of a static field before any code has run. -/
  initialValue : Option Int64 := none
  deriving DecidableEq, Repr

namespace Field

/-- The identifier of a field. -/
def id (field : Field) : FieldId :=
  fieldId field.name field.type

/-- Whether a field holds no reference. -/
def isPrimitive (field : Field) : Bool :=
  DalvikHorn.isPrimitive field.type

end Field

/-! ## Methods -/

/-- A method of a class. -/
structure Method where
  /-- Name, parameters and return type. -/
  name : String
  numRegisters : UInt32
  /-- The parameters, with the receiver. -/
  numArguments : UInt32
  isStatic : Bool := false
  /-- Whether an analysis starts here. -/
  entryPoint : Bool := false
  instructions : List Instruction := []
  deriving DecidableEq, Repr

namespace Method

variable (method : Method)

/-- The identifier of a method. -/
def id : MethodId :=
  textHash method.name

/-- The shape of the frame. -/
def shape : FrameShape where
  numRegisters := method.numRegisters.toNat
  numArguments := method.numArguments.toNat

/-- The return type: what follows the last closing parenthesis. -/
def returnType : String :=
  let name := method.name.toList
  if name.contains ')' then
    String.ofList (name.reverse.takeWhile (· != ')')).reverse
  else
    "V"

/-- The position after the instruction at an index: that of the next instruction, or the
one right behind the last, which wraps. -/
def nextPc (index : Nat) : UInt32 :=
  match method.instructions[index + 1]? with
  | some next => next.pc
  | none =>
      match method.instructions[index]? with
      | some last => last.pc + 1
      | none => 0

/-- The first instruction at a position. -/
def instructionAt? (pc : UInt32) : Option Instruction :=
  method.instructions.find? (·.pc == pc)

/-- The payload of a switch or of array data: its own, or that of the instruction at its
target. -/
def payloadFor (instruction : Instruction) : Except Error Payload :=
  match instruction.payload with
  | some payload => .ok payload
  | none => do
      let target ← instruction.branchTarget
      match (method.instructionAt? target).bind (·.payload) with
      | some payload => .ok payload
      | none =>
          .error (.missingPayload instruction.mnemonic instruction.pc method.name target)

end Method

/-! ## Classes -/

/-- A class. -/
structure Class where
  name : String
  superClass : Option String := none
  interfaces : List String := []
  fields : List Field := []
  methods : List Method := []
  /-- Whether the entry points can start at once.  Otherwise they wait for an intent that
  launches the class. -/
  launcher : Bool := true
  deriving DecidableEq, Repr

namespace Class

variable (decl : Class)

/-- The identifier of a class. -/
def id : ClassId :=
  textHash decl.name

/-- The first method with a signature. -/
def method? (signature : String) : Option Method :=
  decl.methods.find? (·.name == signature)

/-- Whether a class has a static initialiser. -/
def hasStaticInitializer : Bool :=
  (decl.method? staticInitializer).isSome

/-- The fields of every instance. -/
def instanceFields : List Field :=
  decl.fields.filter (!·.isStatic)

/-- The fields of the class itself. -/
def staticFields : List Field :=
  decl.fields.filter (·.isStatic)

/-- Whether an analysis starts in a class. -/
def isEntryClass : Bool :=
  decl.methods.any (·.entryPoint)

end Class

/-! ## Programs -/

/-- A program. -/
structure Program where
  classes : List Class := []
  deriving DecidableEq, Repr

namespace Program

variable (program : Program)

/-- The position of the first class with a name. -/
def classIndex? (name : String) : Option Nat :=
  program.classes.findIdx? (·.name == name)

/-- The methods of all classes with their classes, in order. -/
def methods : List (Class × Method) :=
  program.classes.flatMap fun decl => decl.methods.map (decl, ·)

/-- The number of instructions. -/
def instructionCount : Nat :=
  program.methods.foldr (fun (_, method) rest => method.instructions.length + rest) 0

end Program

end DalvikHorn
