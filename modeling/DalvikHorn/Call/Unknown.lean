import DalvikHorn.Call.Site

/-!
# Calls of unknown methods

A method that is neither in the program nor in the library may do anything with
its arguments.  Its result is as secret as its arguments together, or secret by
itself when the method is a source.  An argument on the global heap may have
been written to, so its label covers those of the other arguments.  An argument
on the local heap escapes.
-/

namespace DalvikHorn.StepContext

variable (cx : StepContext) (call : CallSite)

/-- The label of the result. -/
def resultLabel (arguments : List Cell) : Formula :=
  if cx.callsSource call then .tt else .any (arguments.map (·.high))

/-- The label of all elements of a list but one. -/
def labelOfOthers (arguments : List Cell) (index : Nat) : Formula :=
  .any ((arguments.eraseIdx index).map (·.high))

/-- The result of the call, if it has one, and the facts about it: an object has any value in
each of its fields, and an array in any. -/
def unknownResult (label : Formula) : List Clause × Option Cell :=
  let returnType := call.target.returnType
  let classKey := cx.classLiteral returnType
  match call.returnKind with
  | .void => ([], none)
  | .string => ([], some (.globalRef (cx.variable_ Names.field) label))
  | .primitive => ([], some (.scalar (cx.variable_ Names.field) label))
  | .object =>
      let object := cx.variable_ Names.anyField
      let fact := fun field blocked =>
        cx.derive []
          (GlobalHeap.object classKey object field (cx.variable_ Names.anyValue) label blocked)
      let fields := (cx.oracle.fieldLayout returnType).getD []
      let facts :=
        if fields.isEmpty then [fact (cx.variable_ Names.field) (.var Names.fieldBlocked)]
        else fields.map fun (field, primitive) => fact (cx.idLiteral field) (.const (!primitive))
      (facts, some (.globalRef object label))
  | .array =>
      let id := cx.idLiteral cx.allocation
      let fact := cx.derive []
        (GlobalHeap.object classKey id (cx.variable_ Names.field) (cx.variable_ Names.buffer) label
          (.var Names.fieldBlocked))
      ([fact], some (.globalRef id label))

/-- Whether the result of the call is an object that the call allocates. -/
def allocatesResult : Bool :=
  call.returnKind = .object || call.returnKind = .array

/-- A state after the arguments have been shared and the result has been returned. -/
def shareArguments (arguments : List Cell) (result : Option Cell) (state : State) :
    Except Error State := do
  let shared ← (call.arguments.zipIdx).foldlM
    (fun (post : State) (r, index) => do
      let cell ← post.register r.toNat
      post.taint r.toNat (cell.isGlobal.both (labelOfOthers arguments index)))
    state
  match result with
  | some cell => shared.set cx.shape.returnSlot cell
  | none => return shared

/-- The clauses of a call of an unknown method. -/
def compileUnknownCall : Except Error (List Clause) := do
  let arguments ← call.arguments.mapM cx.register
  let (facts, result) := cx.unknownResult call (cx.resultLabel call arguments)
  let update := cx.shareArguments call arguments result
  let plain ← update cx.pre
  let lifted ← cx.liftIfAnyLocal arguments [] update
  return facts ++ cx.step [] plain :: lifted

end DalvikHorn.StepContext
