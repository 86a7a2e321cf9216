import DalvikHorn.Step.Array

/-!
# Fields

A field of an object is in a slot of the local heap, when the register refers to
the local heap and holds the identifier of a site with that field, or on the
global heap.  Static fields are facts of their own relation.
-/

namespace DalvikHorn.StepContext

variable (cx : StepContext)

/-- The guards under which a register refers to the object of a site. -/
def refersTo (object : Cell) (site : AllocationSite) : List Formula :=
  [object.isLocal, object.value.eqTo (cx.idLiteral site.id)]

/-- Reads a field reference. -/
def fieldReference : Except Error FieldRef := do
  (FieldRef.parse (← cx.instruction.getReference)).mapError Error.reference

/-- Loads an instance field. -/
def compileInstanceGet : Except Error (List Clause) := do
  let destination ← cx.instruction.register 0
  let object ← cx.operand 1
  let field := (← cx.fieldReference).fieldId
  let stored := GlobalHeap.object (cx.variable_ Names.className) object.value
    (cx.idLiteral field) (cx.variable_ Names.read) (.var Names.readHigh) (.var Names.readBlocked)
  let fromGlobal ← cx.assign destination [stored] cx.readCell
  let fromLocal ← (cx.layout.sitesWithField field).mapM fun (site, k) => do
    let slot ← cx.pre.slot k
    cx.assign destination (cx.refersTo object site) { slot.cell with isLocal := .ff }
  return fromGlobal ++ fromLocal.flatten

/-- Stores an instance field.  A value that is stored into an object on the global heap
escapes, and the label of the object covers that of the value. -/
def compileInstancePut : Except Error (List Clause) := do
  let source ← cx.operand 0
  let objectRegister ← cx.instruction.register 1
  let object ← cx.operand 1
  let reference ← cx.fieldReference
  let field := reference.fieldId
  let update := fun (post : State) => post.taint objectRegister.toNat source.high
  let plain ← update cx.pre
  let toGlobal := cx.derive [object.isGlobal]
    (GlobalHeap.object (cx.idLiteral reference.classId) object.value (cx.idLiteral field)
      source.value source.high source.blocked)
  let lifted ← cx.liftIfLocal (← cx.instruction.register 0) [object.isGlobal] update
  let toLocal ← (cx.layout.sitesWithField field).mapM fun (site, k) => do
    let stored ← cx.pre.setSlot k { cell := source, free := .ff }
    let post ← update stored
    return cx.step (cx.refersTo object site) post
  return cx.step [] plain :: toGlobal :: lifted ++ toLocal

/-- The class and field of a static field, under the class that declares it. -/
def staticKey (reference : FieldRef) : IntExpr × IntExpr :=
  let owner :=
    (cx.oracle.staticFieldOwner reference.classId reference.fieldId).getD reference.classId
  (.lit owner.toInt, .lit reference.fieldId.toInt)

/-- Loads a static field: what has been stored, or zero. -/
def compileStaticGet : Except Error (List Clause) := do
  let destination ← cx.instruction.register 0
  let (owner, field) := cx.staticKey (← cx.fieldReference)
  let unset : Cell :=
    { value := cx.literal 0, high := .ff, isLocal := .ff, isGlobal := .var Names.fieldBlocked }
  let stored := GlobalHeap.static owner field (cx.variable_ Names.field) (.var Names.fieldHigh)
    (.var Names.fieldBlocked)
  let loaded : Cell :=
    { value := cx.variable_ Names.field, high := .var Names.fieldHigh, isLocal := .ff,
      isGlobal := .var Names.fieldBlocked }
  return (← cx.assign destination [] unset) ++ (← cx.assign destination [stored] loaded)

/-- Stores a static field, to which the value escapes. -/
def compileStaticPut : Except Error (List Clause) := do
  let sourceRegister ← cx.instruction.register 0
  let source ← cx.operand 0
  let (owner, field) := cx.staticKey (← cx.fieldReference)
  let store := cx.derive [] (GlobalHeap.static owner field source.value source.high source.blocked)
  return cx.identity :: store :: (← cx.liftIfLocal sourceRegister [] .ok)

end DalvikHorn.StepContext
