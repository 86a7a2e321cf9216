import DalvikHorn.Call.Library
import DalvikHorn.Call.Unknown
import DalvikHorn.Step.Transfer

/-!
# Call linkage

A call is linked in one of four ways, tried in this order: work that is handed
to another thread starts the method that runs it; a call that the oracle
resolves enters its targets and continues at their exits; a library method has
its rule; all others are unknown.
-/

namespace DalvikHorn

/-! ## Asynchronous calls -/

/-- A call that starts another method than it names. -/
structure Remap where
  /-- The class that the call has to name; none stands for all. -/
  owner : Option String
  signature : String
  /-- The class whose method is started, unless it is the one that the call names. -/
  targetOwner : Option String
  targetSignature : String
  /-- The argument that becomes the receiver. -/
  receiver : Nat
  deriving DecidableEq, Repr

/-- The calls that hand work to another thread. -/
def remaps : List Remap :=
  [{ owner := none
     signature := "execute(Ljava/lang/Runnable;)V"
     targetOwner := some "Ljava/lang/Runnable;"
     targetSignature := "run()V"
     receiver := 1 },
    { owner := none
      signature := "start()V"
      targetOwner := none
      targetSignature := "run()V"
      receiver := 0 },
    { owner := none
      signature := "execute([Ljava/lang/Object;)Landroid/os/AsyncTask;"
      targetOwner := none
      targetSignature := "doInBackground([Ljava/lang/Object;)Ljava/lang/Object;"
      receiver := 0 },
    { owner := some "Ljava/lang/Thread;"
      signature := "<init>(Ljava/lang/Runnable;)V"
      targetOwner := some "Ljava/lang/Runnable;"
      targetSignature := "run()V"
      receiver := 1 }]

/-- Whether a remap is for a method. -/
def Remap.fits (remap : Remap) (method : MethodRef) : Bool :=
  remap.signature == method.signature && remap.owner.all (· == method.owner)

/-! ## Linkage -/

/-- A method that a call enters, with the receivers that it is entered for when the call is a
virtual one. -/
structure CallTarget where
  owner : ClassId
  method : MethodId
  shape : FrameShape
  receivers : Option (List InstanceId)
  deriving DecidableEq, Repr

/-- The way in which a call is linked. -/
inductive Linkage where
  /-- The call starts other methods with some of its arguments. -/
  | remapped (arguments : List UInt32) (implementations : List Implementation)
  | resolved (targets : List CallTarget)
  | library (effect : LibraryEffect)
  | unknown

namespace CallSite

variable (call : CallSite) (oracle : Oracle)

/-- The methods that a call starts instead of the one that it names. -/
def remapped? : Option (List UInt32 × List Implementation) := do
  let remap ← remaps.find? (·.fits call.target)
  let arguments := call.arguments.drop remap.receiver
  if arguments.isEmpty then none
  let owner := (remap.targetOwner.map textHash).getD call.classId
  let implementations ← oracle.resolveVirtual owner (textHash remap.targetSignature)
  return (arguments, implementations)

/-- The methods that a call enters; those whose arguments do not fit into their registers are
left out. -/
def targets : List CallTarget :=
  let found :=
    if call.kind.isDynamic then
      ((oracle.resolveVirtual call.classId call.methodId).getD []).map fun implementation =>
        { owner := implementation.owner
          method := implementation.method
          shape := implementation.shape
          receivers := some implementation.receivers }
    else
      ((oracle.resolveStatic call.classId call.methodId).getD []).map fun definition =>
        { owner := definition.owner
          method := definition.method
          shape := definition.shape
          receivers := none }
  found.filter (·.shape.WellFormed)

/-- The way in which a call is linked. -/
def linkage (libraryRulesUsed : Bool) : Linkage :=
  match call.remapped? oracle with
  | some (arguments, implementations) => .remapped arguments implementations
  | none =>
      let targets := call.targets oracle
      if targets.isEmpty then
        match if libraryRulesUsed then call.libraryEffect? else none with
        | some effect => .library effect
        | none => .unknown
      else
        .resolved targets

end CallSite

/-! ## Entries and exits -/

namespace StepContext

variable (cx : StepContext)

/-- The state in which a method is entered: arguments in the parameter registers and in the
argument copies, zero elsewhere, and the heap of the caller. -/
def entryState (shape : FrameShape) (arguments : List UInt32) : Except Error State :=
  (arguments.take shape.numArguments).zipIdx.foldlM
    (fun (entry : State) (r, i) => do
      let argument ← cx.register r
      match shape.parameterRegister? i with
      | none => throw .calleeExceedsRegisters
      | some parameter =>
          let entered ← entry.set parameter argument
          entered.set (shape.argumentCopy i) argument)
    (.zeroed shape cx.pre.heap cx.width)

/-- The clause that enters a method. -/
def enter (arguments : List UInt32) (owner : ClassId) (method : MethodId) (shape : FrameShape)
    (guards : List Formula) : Except Error Clause := do
  let entry ← cx.entryState shape arguments
  return cx.derive guards (pointAtom { owner := owner, method := method, pc := 0 } entry)

/-- A register after a call: when it refers to a site that the call has left occupied, the
object may be on the global heap as well. -/
def afterCall (occupied : List (BvExpr × Formula)) (cell : Cell) : Cell :=
  let aliased := Formula.any (occupied.map fun (id, live) => live.both (cell.value.eqTo id))
  { cell with isGlobal := cell.isGlobal.either (cell.isLocal.both aliased) }

/-- The identifiers of all sites, each with whether the returned heap has it occupied. -/
def occupiedSites : List (BvExpr × Formula) :=
  cx.layout.sites.map fun site =>
    let header := HeapSlot.canonical Names.returnedHeap site.headerSlot cx.width
    (cx.idLiteral site.id, header.free.negate)

/-- The clause that continues at the exit of a method. -/
def leave (call : CallSite) (target : CallTarget) (guards : List Formula) :
    Except Error Clause := do
  let arguments ← (List.range target.shape.numArguments).mapM fun i =>
    match call.arguments[i]? with
    | some r => cx.register r
    | none => .ok (.zero cx.width)
  let returned := canonicalHeap Names.returnedHeap cx.layout.size cx.width
  let exit := exitAtom target.owner target.method arguments cx.resultCell returned
  let kept := cx.pre.mapRegisters (cx.shape.numRegisters + 1) fun _ =>
    afterCall cx.occupiedSites
  let result := if cx.callsSource call then cx.resultCell.withHigh .tt else cx.resultCell
  let post ←
    if call.returnKind.returnsValue then kept.set cx.shape.returnSlot result else .ok kept
  let heap := (returned.zip cx.pre.heap).map fun (callee, own) =>
    { callee with free := callee.free.both own.free }
  return cx.step (exit.toFormula :: guards) (post.withHeap heap)

/-- The guards under which a call enters a target: one for each receiver of a virtual call. -/
def receiverGuards (receiver : Option UInt32) (receivers : Option (List InstanceId)) :
    Except Error (List (List Formula)) :=
  match receiver, receivers with
  | some r, some ids => do
      let value := (← cx.register r).value
      return ids.map fun id => [value.eqTo (cx.idLiteral id)]
  | _, _ => .ok [[]]

/-- The clauses that enter and leave a target. -/
def linkTarget (call : CallSite) (target : CallTarget) : Except Error (List Clause) := do
  let guards ← cx.receiverGuards call.receiver? target.receivers
  let clauses ← guards.mapM fun guard => do
    let entry ← cx.enter call.arguments target.owner target.method target.shape guard
    let exit ← cx.leave call target guard
    return [entry, exit]
  return clauses.flatten

/-- The clauses that start methods on another thread. -/
def startThreads (arguments : List UInt32) (implementations : List Implementation) :
    Except Error (List Clause) := do
  let receiver ← cx.register (arguments.headD 0)
  let entries ← (implementations.filter (·.shape.WellFormed)).mapM fun implementation =>
    implementation.receivers.mapM fun id =>
      cx.enter arguments implementation.owner implementation.method implementation.shape
        [receiver.value.eqTo (cx.idLiteral id)]
  return entries.flatten ++ [cx.identity]

/-- The clauses of a call. -/
def compileCall (call : CallSite) : Except Error (List Clause) :=
  match call.linkage cx.oracle cx.env.config.intentSummaries with
  | .remapped arguments implementations => cx.startThreads arguments implementations
  | .resolved targets => do return (← targets.mapM (cx.linkTarget call)).flatten
  | .library effect => effect.compile cx call
  | .unknown => cx.compileUnknownCall call

/-- What a call contributes. -/
def compileInvoke (kind : InvokeKind) : Except Error Emission := do
  let call ← CallSite.ofInstruction cx.instruction kind
  let queries ← cx.sinkQueries call
  let clauses ← cx.compileCall call
  return { Emission.ofClauses clauses with queries := queries, callsSink := cx.callsSink call }

end StepContext

end DalvikHorn
