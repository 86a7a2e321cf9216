import DalvikHorn.Step.Context

/-!
# Objects

A site holds at most one local object.  Allocating there again moves the
previous object to the global heap, together with every register that refers to
it; when the previous object referred to local objects itself, the whole local
heap has to move.
-/

namespace DalvikHorn

/-- A register after the object that `id` names has moved to the global heap. -/
def Cell.release (cell : Cell) (id : BvExpr) : Cell :=
  let refers := cell.value.eqTo id
  { cell with
    isLocal := cell.isLocal.both refers.negate
    isGlobal := cell.isGlobal.either (cell.isLocal.both refers) }

/-- A state in which all slots of a site belong to a new object. -/
def State.clearSite (width : Nat) (site : AllocationSite) (state : State) : Except Error State :=
  site.slots.foldlM (fun post k => post.setSlot k (.allocated width)) state

/-- The type of the object that an instruction allocates on the local heap, if it does.
Intents live on a heap of their own. -/
def Instruction.localAllocation? (instruction : Instruction) : Option String :=
  if instruction.opcode = .newInstance then
    instruction.reference.filter (· != intentClass)
  else
    none

namespace StepContext

variable (cx : StepContext)

/-- The entry of the static initialiser of a class, if it has one. -/
def initializerEntry (owner : ClassId) : List Clause :=
  if cx.oracle.hasStaticInitializer owner then
    let initializer := textHash staticInitializer
    match cx.oracle.methodShape owner initializer with
    | some shape =>
        [cx.derive []
          (pointAtom { owner := owner, method := initializer, pc := 0 }
            (.zeroed shape cx.pre.heap cx.width))]
    | none => []
  else
    []

/-- Allocates an object at its site of the local heap. -/
def compileNewInstance : Except Error (List Clause) := do
  let typeName ← cx.instruction.getReference
  if typeName = intentClass then
    return [cx.identity]
  let destination ← cx.instruction.register 0
  match cx.layout.site? cx.allocation with
  | none =>
      throw (.inconsistentAllocation cx.allocation cx.owner.name cx.method.name
        cx.instruction.pc)
  | some site =>
      let id := cx.idLiteral cx.allocation
      let allocate := fun (post : State) => do
        let assigned ← post.set destination.toNat (.localRef id)
        assigned.clearSite cx.width site
      let released := cx.pre.mapRegisters (cx.shape.numRegisters + 1) fun _ cell => cell.release id
      let plain ← allocate released
      let header ← cx.pre.slot site.headerSlot
      let flushed ← flushSite cx.width site (cx.body []) cx.pre
      let fields ← site.fieldSlots.mapM fun k => do return (← cx.pre.slot k).cell
      let lifted ← cx.liftIfAnyLocal fields [header.free.negate] allocate
      return cx.step [] plain :: flushed ++ lifted ++ cx.initializerEntry (textHash typeName)

/-- Goes on only with a reference that is not null. -/
def compileCheckCast : Except Error (List Clause) := do
  let object ← cx.operand 0
  let nonNull := Formula.compare .ugt object.value (cx.literal 0)
  return [cx.step [object.isGlobal, nonNull] cx.pre, cx.step [object.isLocal, nonNull] cx.pre]

/-- Tests the type of an object, with both outcomes. -/
def compileInstanceOf : Except Error (List Clause) := do
  let destination ← cx.instruction.register 0
  let no ← cx.assign destination [] (.scalar (cx.literal 0) .ff)
  let yes ← cx.assign destination [] (.scalar (cx.literal 1) .ff)
  return no ++ yes

end StepContext

end DalvikHorn
