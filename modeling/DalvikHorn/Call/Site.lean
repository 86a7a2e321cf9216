import DalvikHorn.Step.Context

/-!
# Call sites

A call site names a method and passes registers.  A call of a sink asks one
query per argument: can it be secret here?
-/

namespace DalvikHorn

/-- A call. -/
structure CallSite where
  kind : InvokeKind
  target : MethodRef
  /-- The registers that are passed, the receiver first. -/
  arguments : List UInt32
  deriving DecidableEq, Repr

namespace CallSite

/-- The call that an instruction makes. -/
def ofInstruction (instruction : Instruction) (kind : InvokeKind) : Except Error CallSite := do
  let target ← (MethodRef.parse (← instruction.getReference)).mapError Error.reference
  return { kind := kind, target := target, arguments := instruction.argumentRegisters }

variable (call : CallSite)

/-- The class that the call names. -/
def classId : ClassId :=
  call.target.classId

/-- The method that the call names. -/
def methodId : MethodId :=
  call.target.methodId

/-- What the call returns. -/
def returnKind : ReturnKind :=
  call.target.returnKind

/-- The register of the receiver, if there is one. -/
def receiver? : Option UInt32 :=
  if call.kind = .static then none else call.arguments.head?

end CallSite

namespace StepContext

variable (cx : StepContext) (call : CallSite)

/-- Whether the result of the call is secret by itself. -/
def callsSource : Bool :=
  cx.oracle.isSource call.classId call.methodId

/-- Whether no argument of the call may be secret. -/
def callsSink : Bool :=
  cx.oracle.isSink call.classId call.methodId

/-- The query for one argument of a call of a sink. -/
def sinkQuery (r : UInt32) (cell : Cell) : Query where
  condition := .all [cx.current, cell.high]
  key :=
    { owner := cx.owner.id
      method := cx.method.id
      pc := cx.instruction.pc
      sink := call.target.text }
  register := r
  description :=
    s!"Test if register {r.toNat} leaks @line {cx.instruction.pc.toNat} in method " ++
      s!"{cx.method.name} of the class {cx.owner.name} ---> sink {call.target.text}"

/-- The queries of a call, one per argument when it calls a sink. -/
def sinkQueries : Except Error (List Query) :=
  if cx.callsSink call then
    call.arguments.mapM fun r => do return cx.sinkQuery call r (← cx.register r)
  else
    .ok []

end StepContext

end DalvikHorn
