import DalvikHorn.Heap.Reachability
import DalvikHorn.Step.Object

/-!
# Layout and facts of a program

Before any instruction is compiled, every object that the program allocates gets
its place in the local heap.  Besides the clauses of instructions there are
facts about the program as a whole: the initial values of static fields, the
states in which entry points start, and the rules of auxiliary relations.
-/

namespace DalvikHorn

/-! ## The layout -/

namespace Program

variable (program : Program)

/-- The allocations on the local heap: position and type. -/
def localAllocations : List (ProgramPoint × String) :=
  program.methods.flatMap fun (decl, method) =>
    method.instructions.filterMap fun instruction =>
      instruction.localAllocation?.map fun typeName =>
        ({ owner := decl.id, method := method.id, pc := instruction.pc }, typeName)

/-- The layout of the local heap.  The identifiers of all sites are asked for in order, before
any other. -/
def heapLayout (oracle : Oracle) : HeapLayout :=
  program.localAllocations.zipIdx.foldl
    (fun layout ((point, typeName), request) =>
      layout.addSite (oracle.allocationId request point.owner point.method point.pc) typeName
        (textHash typeName) ((oracle.fieldLayout typeName).getD []))
    HeapLayout.empty

/-- The entry points whose arguments fit into their registers. -/
def entryPoints : List (Class × Method) :=
  program.methods.filter fun (_, method) => method.entryPoint && decide method.shape.WellFormed

end Program

/-! ## Facts -/

namespace Environment

variable (env : Environment)

/-- The initial values of static fields. -/
def staticInitialValues (program : Program) : List Clause :=
  program.classes.flatMap fun decl =>
    decl.staticFields.filterMap fun field =>
      field.initialValue.map fun value =>
        .fact (GlobalHeap.static (.lit decl.id.toInt) (.lit field.id.toInt)
          (.ofInt value.toInt env.width) .ff .ff)

/-- Whether an entry point has a receiver, whose identifier is asked for. -/
def hasReceiver (method : Method) : Bool :=
  !method.isStatic && 0 < method.shape.numArguments

/-- The cell of a parameter of an entry point.  The receiver is the object that the analysis
starts with; all others may hold any public value. -/
def parameterCell (receiver : InstanceId) (method : Method) (i r : Nat) : Cell :=
  if i = 0 && !method.isStatic then
    .globalRef (GlobalHeap.idLiteral env.width receiver) .ff
  else
    { value := .var (Names.value r) env.width, high := .ff, isLocal := .ff,
      isGlobal := .var (Names.isGlobal r) }

/-- The state in which an entry point starts. -/
def startState (receiver : InstanceId) (owner : Class) (method : Method) : Except Error State :=
  (List.range method.shape.numArguments).foldlM
    (fun (state : State) i =>
      match method.shape.parameterRegister? i with
      | none => .error (.entryExceedsRegisters owner.name method.name)
      | some r => do
          let cell := env.parameterCell receiver method i r
          let entered ← state.set r cell
          entered.set (method.shape.argumentCopy i) cell)
    (.zeroed method.shape (List.replicate env.layout.size (.empty env.width)) env.width)

/-- The clause that starts an entry point: at once, or when an intent has launched its
class. -/
def entryClause (receiver : InstanceId) (owner : Class) (method : Method) :
    Except Error Clause := do
  let state ← env.startState receiver owner method
  let head := pointAtom { owner := owner.id, method := method.id, pc := 0 } state
  if owner.launcher || !env.config.intentSummaries then
    return .fact head
  else
    let launched := GlobalHeap.launch (GlobalHeap.idLiteral env.width owner.id)
      (.var Names.anyValue env.width) (.var Names.read env.width) (.var Names.fieldHigh)
      (.var Names.fieldBlocked)
    return { body := [launched], head := head }

/-- The clauses of some entry points, when a number of identifiers has been asked for. -/
def entryClauses : Nat → List (Class × Method) → Except Error (List Clause)
  | _, [] => .ok []
  | requests, (owner, method) :: rest => do
      let receiver := env.oracle.allocationId requests owner.id 0 0
      let clause ← env.entryClause receiver owner method
      let after := if hasReceiver method then requests + 1 else requests
      return clause :: (← entryClauses after rest)

/-- The facts of a program, when a number of identifiers has been asked for. -/
def facts (requests : Nat) (program : Program) : Except Error (List Clause) := do
  let activityRule :=
    if env.config.intentSummaries then [GlobalHeap.activityResultRule env.width] else []
  let reachRules :=
    if env.config.reachFilter then reachabilityRules env.layout env.width else []
  let entries ← env.entryClauses requests program.entryPoints
  return activityRule ++ env.staticInitialValues program ++ reachRules ++ entries

/-- The number of identifiers that the facts of a program ask for. -/
def factRequests (program : Program) : Nat :=
  program.entryPoints.countP fun (_, method) => hasReceiver method

end Environment

end DalvikHorn
