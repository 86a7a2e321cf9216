import DalvikHorn.Step.Context

/-!
# Moves, constants and returns
-/

namespace DalvikHorn.StepContext

variable (cx : StepContext)

/-- Copies a register. -/
def compileMove : Except Error (List Clause) := do
  let destination ← cx.instruction.register 0
  let source ← cx.operand 1
  cx.assign destination [] source

/-- Copies the return slot. -/
def compileMoveResult : Except Error (List Clause) := do
  let destination ← cx.instruction.register 0
  let result ← cx.pre.register cx.shape.returnSlot
  cx.assign destination [] result

/-- Loads a public constant; strings and classes are known by the hash of their text. -/
def compileConst (kind : ConstKind) : Except Error (List Clause) := do
  let destination ← cx.instruction.register 0
  let value ←
    match kind with
    | .literal => do pure (cx.literal (← cx.instruction.getLiteral).toInt)
    | .string => do pure (cx.classLiteral (← cx.instruction.getReference))
    | .class_ => do pure (cx.classLiteral (← cx.instruction.getReference))
  cx.assign destination [] (.scalar value .ff)

/-- The result of a call over its variables. -/
def resultCell : Cell where
  value := cx.variable_ Names.result
  high := .var Names.resultHigh
  isLocal := .var Names.resultLocal
  isGlobal := .var Names.resultGlobal

/-- Leaves the method: its exit answers the entry with the kept arguments.  A method without
a result may exit with any. -/
def compileReturn (void : Bool) : Except Error (List Clause) := do
  let arguments ← (List.range cx.shape.numArguments).mapM fun i =>
    cx.pre.register (cx.shape.argumentCopy i)
  let result ← if void then pure cx.resultCell else cx.operand 0
  return [cx.derive [] (exitAtom cx.owner.id cx.method.id arguments result cx.pre.heap)]

end DalvikHorn.StepContext
