import DalvikHorn.Step.Context

/-!
# Arrays

Arrays live on the global heap, with their elements as fields.  Unless the
elements are told apart, all of them are field zero.
-/

namespace DalvikHorn.StepContext

variable (cx : StepContext)

/-- The field of an element. -/
def elementField (index : BvExpr) : BvExpr :=
  if cx.env.config.arrays then index else cx.literal 0

/-- Allocates an array of zeros. -/
def compileNewArray : Except Error (List Clause) := do
  let destination ← cx.instruction.register 0
  let size ← cx.operand 1
  let classKey := cx.classLiteral (← cx.instruction.getReference)
  let id := cx.idLiteral cx.allocation
  let element := fun field => GlobalHeap.object classKey id field (.zero cx.width) .ff .ff
  let elements :=
    if cx.env.config.arrays then
      let field := cx.variable_ Names.field
      cx.derive [.compare .ule (cx.literal 0) field, .compare .ult field size.value]
        (element field)
    else
      cx.derive [] (element (cx.literal 0))
  return elements :: (← cx.assign destination [] (.globalRef id .ff))

/-- Allocates an array of the given elements, which escape to it, as a result. -/
def compileFilledNewArray : Except Error (List Clause) := do
  let classKey := cx.classLiteral (← cx.instruction.getReference)
  let id := cx.idLiteral cx.allocation
  let elements ← cx.instruction.argumentRegisters.mapM cx.register
  let stores := elements.mapIdx fun k element =>
    cx.derive [] (GlobalHeap.object classKey id (cx.elementField (cx.literal k)) element.value
      element.high element.blocked)
  let array := Cell.globalRef id .ff
  let plain ← cx.returns [] array
  let lifted ← cx.liftIfAnyLocal elements [] fun post => post.set cx.shape.returnSlot array
  return stores ++ plain ++ lifted

/-- Stores the elements of a table into an array that exists.  Without a usable table nothing
is stored. -/
def compileFillArrayData : Except Error (List Clause) := do
  let array ← cx.operand 0
  match cx.method.payloadFor cx.instruction >>= Payload.arrayElements with
  | .error _ => return [cx.identity]
  | .ok elements =>
      let classKey := cx.variable_ Names.className
      let existing := GlobalHeap.object classKey array.value (cx.variable_ Names.field)
        (cx.variable_ Names.anyValue) (.var Names.fieldHigh) (.var Names.fieldBlocked)
      let stores := elements.mapIdx fun k element =>
        cx.derive [existing]
          (GlobalHeap.object classKey array.value (cx.elementField (cx.literal k))
            (cx.literal element.toInt) .ff .ff)
      return stores ++ [cx.identity]

/-- A value read from the global heap, over its variables. -/
def readCell : Cell where
  value := cx.variable_ Names.read
  high := .var Names.readHigh
  isLocal := .ff
  isGlobal := .var Names.readBlocked

/-- Loads an element. -/
def compileArrayGet : Except Error (List Clause) := do
  let destination ← cx.instruction.register 0
  let array ← cx.operand 1
  let index ← cx.operand 2
  let stored := GlobalHeap.object (cx.variable_ Names.className) array.value
    (cx.elementField index.value) (cx.variable_ Names.read) (.var Names.readHigh)
    (.var Names.readBlocked)
  cx.assign destination [stored] cx.readCell

/-- Stores an element, which escapes to the array; the label of the array covers that of the
element. -/
def compileArrayPut : Except Error (List Clause) := do
  let source ← cx.operand 0
  let arrayRegister ← cx.instruction.register 1
  let array ← cx.operand 1
  let index ← cx.operand 2
  let update := fun (post : State) => post.taint arrayRegister.toNat source.high
  let plain ← update cx.pre
  let existing := GlobalHeap.object (cx.variable_ Names.className) array.value
    (cx.variable_ Names.field) (cx.variable_ Names.anyValue) (.var Names.anyHigh)
    (.var Names.anyBlocked)
  let store := cx.derive [existing]
    (GlobalHeap.object (cx.variable_ Names.className) array.value (cx.elementField index.value)
      source.value source.high source.blocked)
  let lifted ← cx.liftIfLocal (← cx.instruction.register 0) [] update
  return cx.step [] plain :: store :: lifted

/-- Loads the length of an array, which may be any public number. -/
def compileArrayLength : Except Error (List Clause) := do
  let destination ← cx.instruction.register 0
  cx.assign destination [] (.scalar (cx.variable_ Names.field) .ff)

end DalvikHorn.StepContext
