import DalvikHorn.Config.Basic
import DalvikHorn.Dispatch.Oracle
import DalvikHorn.Heap.Lifting

/-!
# The context of an instruction

Every instruction is compiled on its own.  Its clauses start from the relation
of its program point over the canonical variables, add guards, and derive either
a state at another point of the method or a fact of another relation.
-/

namespace DalvikHorn

/-- What all instructions of a program are compiled with. -/
structure Environment where
  config : Config
  oracle : Oracle
  layout : HeapLayout

/-- The width of values. -/
def Environment.width (env : Environment) : Nat :=
  env.config.width

/-- What an instruction is compiled with. -/
structure StepContext where
  env : Environment
  owner : Class
  method : Method
  instruction : Instruction
  /-- The position that control goes on to. -/
  nextPc : UInt32
  /-- The identifier of the object that the instruction allocates, if it does. -/
  allocation : InstanceId

namespace StepContext

variable (cx : StepContext)

/-! ## Access -/

/-- The width of values. -/
def width : Nat :=
  cx.env.width

/-- The layout of the local heap. -/
def layout : HeapLayout :=
  cx.env.layout

/-- The oracle. -/
def oracle : Oracle :=
  cx.env.oracle

/-- The shape of the frame. -/
def shape : FrameShape :=
  cx.method.shape

/-- The state before the instruction, over the canonical variables. -/
def pre : State :=
  .canonical cx.shape cx.layout.size cx.width

/-- A position in the method. -/
def pointAt (pc : UInt32) : ProgramPoint where
  owner := cx.owner.id
  method := cx.method.id
  pc := pc

/-- The position of the instruction. -/
def point : ProgramPoint :=
  cx.pointAt cx.instruction.pc

/-- The cell of a register before the instruction. -/
def register (r : UInt32) : Except Error Cell :=
  cx.pre.register r.toNat

/-- The cell of a register operand before the instruction. -/
def operand (index : Nat) : Except Error Cell := do
  cx.register (← cx.instruction.register index)

/-- A literal of the width of values. -/
def literal (value : Int) : BvExpr :=
  .ofInt value cx.width

/-- The literal of an identifier. -/
def idLiteral (id : Int32) : BvExpr :=
  GlobalHeap.idLiteral cx.width id

/-- The literal of the identifier of a class. -/
def classLiteral (name : String) : BvExpr :=
  cx.idLiteral (textHash name)

/-- An auxiliary variable for a value. -/
def variable_ (name : String) : BvExpr :=
  .var name cx.width

/-! ## Clauses -/

/-- The atom that the state before the instruction is reachable. -/
def current : Atom :=
  pointAtom cx.point cx.pre

/-- The body of a clause: the current state and some guards. -/
def body (guards : List Formula) : List Formula :=
  cx.current :: guards

/-- A clause that derives a fact. -/
def derive (guards : List Formula) (head : Atom) : Clause where
  body := cx.body guards
  head := head

/-- A clause that goes on at a position of the method. -/
def jump (pc : UInt32) (guards : List Formula) (post : State) : Clause :=
  cx.derive guards (pointAtom (cx.pointAt pc) post)

/-- A clause that goes on at the next instruction. -/
def step (guards : List Formula) (post : State) : Clause :=
  cx.jump cx.nextPc guards post

/-- The clause that goes on at the next instruction with the same state. -/
def identity : Clause :=
  cx.step [] cx.pre

/-- Moves the local heap to the global one, changes the state, and goes on at the next
instruction. -/
def lift (guards : List Formula) (update : State → Except Error State) :
    Except Error (List Clause) := do
  let facts ← flushAll cx.layout cx.width (cx.body guards) cx.pre
  let post ← update (cx.pre.promote cx.layout cx.width cx.shape.numRegisters)
  return facts ++ [cx.step guards post]

/-- Lifts when a register refers to the local heap. -/
def liftIfLocal (r : UInt32) (guards : List Formula) (update : State → Except Error State) :
    Except Error (List Clause) := do
  let cell ← cx.register r
  cx.lift (guards ++ [cell.isLocal]) update

/-- Lifts when one of some cells refers to the local heap, which may be excluded at once. -/
def liftIfAnyLocal (cells : List Cell) (guards : List Formula)
    (update : State → Except Error State) : Except Error (List Clause) :=
  let escaping := Formula.any (cells.map (·.isLocal))
  if escaping.isFalse then .ok [] else cx.lift (guards ++ [escaping]) update

/-- Writes a register and goes on at the next instruction. -/
def assign (r : UInt32) (guards : List Formula) (cell : Cell) : Except Error (List Clause) := do
  let post ← cx.pre.set r.toNat cell
  return [cx.step guards post]

/-- Writes the return slot and goes on at the next instruction. -/
def returns (guards : List Formula) (cell : Cell) : Except Error (List Clause) := do
  let post ← cx.pre.set cx.shape.returnSlot cell
  return [cx.step guards post]

end StepContext

/-! ## Emissions -/

/-- What an instruction or a method contributes. -/
structure Emission where
  clauses : List Clause := []
  queries : List Query := []
  /-- Whether a sink is called. -/
  callsSink : Bool := false

namespace Emission

/-- An emission of clauses, without those that derive nothing. -/
def ofClauses (clauses : List Clause) : Emission where
  clauses := clauses.filter (!·.isVacuous)

/-- One emission after another. -/
def append (first second : Emission) : Emission where
  clauses := first.clauses ++ second.clauses
  queries := first.queries ++ second.queries
  callsSink := first.callsSink || second.callsSink

/-- Several emissions in order. -/
def join (emissions : List Emission) : Emission :=
  emissions.foldl append {}

/-- Whether nothing is contributed. -/
def isEmpty (emission : Emission) : Bool :=
  emission.clauses.isEmpty && emission.queries.isEmpty

end Emission

end DalvikHorn
