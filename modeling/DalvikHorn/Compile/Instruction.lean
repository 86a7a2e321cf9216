import DalvikHorn.Call.Linkage
import DalvikHorn.Step.Arithmetic
import DalvikHorn.Step.Branch
import DalvikHorn.Step.Field
import DalvikHorn.Step.Object

/-!
# Compiling instructions and methods

An instruction that cannot be compiled is passed over: control goes on at the
next instruction with the same state.  Only a fatal error, such as an allocation
at an unknown site, ends the run.
-/

namespace DalvikHorn

namespace StepContext

variable (cx : StepContext)

/-- What an instruction contributes. -/
def compile : Except Error Emission :=
  let steps := fun (clauses : Except Error (List Clause)) => clauses.map Emission.ofClauses
  match cx.instruction.opcode with
  | .nop => steps (.ok [cx.identity])
  | .monitor => steps (.ok [cx.identity])
  | .moveException => steps (.ok [cx.identity])
  | .throw => steps (.ok [cx.identity])
  | .payload => steps (.ok [cx.identity])
  | .unsupported => steps (.ok [cx.identity])
  | .move => steps cx.compileMove
  | .moveResult => steps cx.compileMoveResult
  | .return_ => steps (cx.compileReturn false)
  | .returnVoid => steps (cx.compileReturn true)
  | .const kind => steps (cx.compileConst kind)
  | .checkCast => steps cx.compileCheckCast
  | .instanceOf => steps cx.compileInstanceOf
  | .arrayLength => steps cx.compileArrayLength
  | .newInstance => steps cx.compileNewInstance
  | .newArray => steps cx.compileNewArray
  | .filledNewArray _ => steps cx.compileFilledNewArray
  | .fillArrayData => steps cx.compileFillArrayData
  | .goto => steps cx.compileGoto
  | .switch _ => steps cx.compileSwitch
  | .compare => steps cx.compileCompare
  | .branch condition againstZero => steps (cx.compileBranch condition againstZero)
  | .arrayGet => steps cx.compileArrayGet
  | .arrayPut => steps cx.compileArrayPut
  | .instanceGet => steps cx.compileInstanceGet
  | .instancePut => steps cx.compileInstancePut
  | .staticGet => steps cx.compileStaticGet
  | .staticPut => steps cx.compileStaticPut
  | .unary op => steps (cx.compileUnary op)
  | .binary op form => steps (cx.compileBinary op form)
  | .invoke kind _ => cx.compileInvoke kind

/-- What an instruction contributes, which for one that cannot be compiled is its identity. -/
def compileOrSkip : Except Error Emission :=
  match cx.compile with
  | .ok emission => .ok emission
  | .error error => if error.fatal then .error error else .ok (.ofClauses [cx.identity])

/-! ## Requests for identifiers -/

/-- Whether compiling a call asks for the identifier of an object. -/
def callAllocates (call : CallSite) : Bool :=
  match call.linkage cx.oracle cx.env.config.intentSummaries with
  | .library effect => effect = .systemObject
  | .unknown =>
      StepContext.allocatesResult call && (call.arguments.mapM cx.register).toOption.isSome
  | _ => false

/-- Whether compiling an instruction asks for the identifier of an object.  Nothing is asked
for after an error. -/
def allocates : Bool :=
  let reached : Except Error Bool :=
    match cx.instruction.opcode with
    | .newInstance => do
        let typeName ← cx.instruction.getReference
        if typeName = intentClass then
          return false
        let _ ← cx.instruction.register 0
        return true
    | .newArray => do
        let _ ← cx.instruction.register 0
        let _ ← cx.operand 1
        let _ ← cx.instruction.getReference
        return true
    | .filledNewArray _ => do
        let _ ← cx.instruction.getReference
        return true
    | .invoke kind _ => do
        let call ← CallSite.ofInstruction cx.instruction kind
        let _ ← cx.sinkQueries call
        return cx.callAllocates call
    | _ => .ok false
  reached.toOption.getD false

end StepContext

/-! ## Methods -/

namespace Environment

variable (env : Environment)

/-- The context of the instruction at an index, when a number of identifiers has been asked
for. -/
def stepContext (requests : Nat) (owner : Class) (method : Method) (index : Nat)
    (instruction : Instruction) : StepContext where
  env := env
  owner := owner
  method := method
  instruction := instruction
  nextPc := method.nextPc index
  allocation := env.oracle.allocationId requests owner.id method.id instruction.pc

/-- Checks that the arguments of a method fit into its registers. -/
def checkShape (owner : Class) (method : Method) : Except Error Unit :=
  if method.shape.WellFormed then
    .ok ()
  else
    .error (.argumentsExceedRegisters owner.name method.name method.shape.numArguments
      method.shape.numRegisters)

/-- The contexts of some instructions of a method from an index on, and the number of
identifiers that have been asked for after them. -/
def contextsFrom (owner : Class) (method : Method) :
    Nat → Nat → List Instruction → List StepContext × Nat
  | requests, _, [] => ([], requests)
  | requests, index, instruction :: rest =>
      let cx := env.stepContext requests owner method index instruction
      let (contexts, after) :=
        contextsFrom owner method (if cx.allocates then requests + 1 else requests) (index + 1) rest
      (cx :: contexts, after)

/-- The contexts of all instructions of a method.  A method whose arguments do not fit has
none. -/
def contexts (requests : Nat) (owner : Class) (method : Method) : List StepContext × Nat :=
  if method.shape.WellFormed then
    env.contextsFrom owner method requests 0 method.instructions
  else
    ([], requests)

/-- What a method contributes. -/
def compileMethod (requests : Nat) (owner : Class) (method : Method) : Except Error Emission := do
  checkShape owner method
  let emissions ← (env.contexts requests owner method).1.mapM StepContext.compileOrSkip
  return .join emissions

end Environment

end DalvikHorn
