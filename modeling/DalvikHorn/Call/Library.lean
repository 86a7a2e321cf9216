import DalvikHorn.Call.Site

/-!
# Library methods

Some framework methods pass data through heaps that the program never sees: the
extras of intents, parcels, maps, buffers and the results of activities.  Each of
them has a rule.  The first rule that fits the class and the method applies,
provided that the call passes enough arguments; otherwise the call is treated
like that of any unknown method.
-/

namespace DalvikHorn

/-! ## Rules -/

/-- Which methods a rule is for. -/
inductive MethodPattern where
  /-- The method with a signature. -/
  | exact (signature : String)
  /-- The methods whose name starts with a text. -/
  | startsWith (text : String)
  /-- The methods whose name contains a text. -/
  | contains (text : String)
  deriving DecidableEq, Repr

/-- Whether a text stands somewhere in another one. -/
def occursIn (part : List Char) : List Char → Bool
  | [] => part.isEmpty
  | c :: rest => part.isPrefixOf (c :: rest) || occursIn part rest

/-- Whether a pattern fits a method. -/
def MethodPattern.fits (method : MethodRef) : MethodPattern → Bool
  | .exact signature => method.signature == signature
  | .startsWith text => text.toList.isPrefixOf method.name.toList
  | .contains text => occursIn text.toList method.name.toList

/-- What a library method does. -/
inductive LibraryEffect where
  | newIntentForAction
  | newIntentForComponent
  | newIntent
  | putExtra
  | getAction
  | getExtra
  | retargetIntent
  | startActivity
  | setResult
  | getIntent
  | marshallParcel
  | unmarshallParcel
  | writeParcel
  | readParcel
  | newException
  | getMessage
  | systemObject
  | newPoint
  | putEntry
  | getEntry
  | copyChars
  | newFormatter
  | format
  | bufferText
  | copyArray
  | getHint
  | setHint
  deriving DecidableEq, Repr

/-- A rule for library methods. -/
structure LibraryRule where
  /-- The classes of the rule; none stands for all. -/
  classes : List String
  pattern : MethodPattern
  /-- The least number of arguments, with the receiver. -/
  minArguments : Nat
  effect : LibraryEffect
  deriving DecidableEq, Repr

/-- Whether a rule is for a method. -/
def LibraryRule.fits (rule : LibraryRule) (method : MethodRef) : Bool :=
  (rule.classes.isEmpty || rule.classes.contains method.owner) && rule.pattern.fits method

/-- The descriptor of parcels. -/
def parcelClass : String := "Landroid/os/Parcel;"

/-- The descriptor of runtime exceptions. -/
def exceptionClass : String := "Ljava/lang/RuntimeException;"

/-- The descriptor of points. -/
def pointClass : String := "Landroid/graphics/PointF;"

/-- The descriptor of maps. -/
def mapClass : String := "Ljava/util/Map;"

/-- The descriptor of buttons. -/
def buttonClass : String := "Landroid/widget/Button;"

/-- The descriptor of formatters. -/
def formatterClass : String := "Ljava/util/Formatter;"

/-- The widgets that have a hint. -/
def hintClasses : List String := [buttonClass, "Landroid/widget/TextView;"]

/-- The rules in the order in which they are tried. -/
def libraryRules : List LibraryRule :=
  [⟨[intentClass], .exact "<init>(Ljava/lang/String;)V", 2, .newIntentForAction⟩,
    ⟨[intentClass], .exact "<init>(Landroid/content/Context;Ljava/lang/Class;)V", 3,
      .newIntentForComponent⟩,
    ⟨[intentClass], .startsWith "<init>", 1, .newIntent⟩,
    ⟨[intentClass], .startsWith "putExtra", 3, .putExtra⟩,
    ⟨[intentClass], .exact "getAction()Ljava/lang/String;", 1, .getAction⟩,
    ⟨[intentClass], .contains "Extra", 1, .getExtra⟩,
    ⟨[intentClass], .startsWith "setComponent", 2, .retargetIntent⟩,
    ⟨[intentClass], .startsWith "setClass", 2, .retargetIntent⟩,
    ⟨[], .startsWith "startActivity", 2, .startActivity⟩,
    ⟨[], .exact "setResult(ILandroid/content/Intent;)V", 3, .setResult⟩,
    ⟨[], .exact "getIntent()Landroid/content/Intent;", 0, .getIntent⟩,
    ⟨[parcelClass], .exact "marshall()[B", 1, .marshallParcel⟩,
    ⟨[parcelClass], .exact "unmarshall([BII)V", 2, .unmarshallParcel⟩,
    ⟨[parcelClass], .startsWith "write", 2, .writeParcel⟩,
    ⟨[parcelClass], .startsWith "read", 1, .readParcel⟩,
    ⟨[exceptionClass], .exact "<init>(Ljava/lang/String;)V", 2, .newException⟩,
    ⟨[exceptionClass], .exact "getMessage()Ljava/lang/String;", 1, .getMessage⟩,
    ⟨["Landroid/telephony/SmsManager;"], .exact "getDefault()Landroid/telephony/SmsManager;", 0,
      .systemObject⟩,
    ⟨[], .exact "getSystemService(Ljava/lang/String;)Ljava/lang/Object;", 0, .systemObject⟩,
    ⟨[pointClass], .exact "<init>(FF)V", 3, .newPoint⟩,
    ⟨[mapClass, "Ljava/util/HashMap;"],
      .exact "put(Ljava/lang/Object;Ljava/lang/Object;)Ljava/lang/Object;", 3, .putEntry⟩,
    ⟨[mapClass, "Ljava/util/HashMap;"], .exact "get(Ljava/lang/Object;)Ljava/lang/Object;", 2,
      .getEntry⟩,
    ⟨[stringClass], .exact "getChars(II[CI)V", 4, .copyChars⟩,
    ⟨[formatterClass], .exact "<init>(Ljava/lang/Appendable;)V", 2, .newFormatter⟩,
    ⟨[formatterClass], .startsWith "format", 3, .format⟩,
    ⟨[stringBufferClass], .exact "toString()Ljava/lang/String;", 1, .bufferText⟩,
    ⟨["Ljava/lang/System;"], .exact "arraycopy(Ljava/lang/Object;ILjava/lang/Object;II)V", 3,
      .copyArray⟩,
    ⟨hintClasses, .exact "getHint()Ljava/lang/CharSequence;", 1, .getHint⟩,
    ⟨hintClasses, .exact "setHint(Ljava/lang/CharSequence;)V", 2, .setHint⟩]

/-- The effect of a call of a library method, if the first rule that fits it applies. -/
def CallSite.libraryEffect? (call : CallSite) : Option LibraryEffect :=
  (libraryRules.find? (·.fits call.target)).bind fun rule =>
    if call.arguments.length < rule.minArguments then none else some rule.effect

/-! ## Parts of effects -/

/-- The register of an argument. -/
def CallSite.argument (call : CallSite) (index : Nat) : Except Error UInt32 :=
  match call.arguments[index]? with
  | some r => .ok r
  | none => .error (.missingArgument call.target.text index)

/-- An object has the value of a cell in a field. -/
def GlobalHeap.holding (classKey id field : BvExpr) (cell : Cell) : Atom :=
  GlobalHeap.object classKey id field cell.value cell.high cell.blocked

namespace StepContext

variable (cx : StepContext) (call : CallSite)

/-- The cell of an argument. -/
def argumentCell (index : Nat) : Except Error Cell := do
  cx.register (← call.argument index)

/-- The bit-vector of a synthetic field. -/
def namedKey (name : String) : BvExpr :=
  GlobalHeap.namedKey cx.width name

/-- The identifier of the class at hand, which also stands for its activity. -/
def activity : BvExpr :=
  cx.idLiteral cx.owner.id

/-- A value that has been read from a heap into a variable. -/
def loaded (name : String) : Cell where
  value := cx.variable_ name
  high := .var Names.fieldHigh
  isLocal := .ff
  isGlobal := .var Names.fieldBlocked

/-- An object has what `loaded` reads in a field. -/
def loadedFrom (name : String) (classKey id field : BvExpr) : Atom :=
  GlobalHeap.object classKey id field (cx.variable_ name) (.var Names.fieldHigh)
    (.var Names.fieldBlocked)

/-- An intent has any extra. -/
def anyExtra (intent : BvExpr) : Atom :=
  GlobalHeap.extra intent (cx.variable_ Names.field) (cx.variable_ Names.read)
    (.var Names.fieldHigh) (.var Names.fieldBlocked)

/-- Stores an argument, which escapes, and goes on. -/
def store (fact : Clause) (r : UInt32) : Except Error (List Clause) := do
  return fact :: cx.identity :: (← cx.liftIfLocal r [] .ok)

/-- Changes the state and goes on, also after a lift when a register refers to the local
heap. -/
def updateAndLift (r : UInt32) (update : State → Except Error State) :
    Except Error (List Clause) := do
  let plain ← update cx.pre
  return cx.step [] plain :: (← cx.liftIfLocal r [] update)

/-- Makes the receiver an intent with a key. -/
def initIntent (key : BvExpr) : Except Error (List Clause) := do
  let receiver ← call.argument 0
  let intent := (← cx.register receiver).value
  let fact := cx.derive [] (GlobalHeap.extra intent key (cx.literal 0) .ff .ff)
  return fact :: (← cx.assign receiver [] (.globalRef intent .ff))

end StepContext

/-! ## Effects -/

/-- The clauses of a call of a library method. -/
def LibraryEffect.compile (cx : StepContext) (call : CallSite) :
    LibraryEffect → Except Error (List Clause)
  | .newIntentForAction => do
      cx.initIntent call (← cx.argumentCell call 1).value
  | .newIntentForComponent => do
      cx.initIntent call (← cx.argumentCell call 2).value
  | .newIntent =>
      cx.initIntent call (cx.variable_ Names.field)
  | .putExtra => do
      let receiver ← call.argument 0
      let keyRegister ← call.argument 1
      let valueRegister ← call.argument 2
      let intent ← cx.register receiver
      let key ← cx.register keyRegister
      let value ← cx.register valueRegister
      let fact := cx.derive [cx.anyExtra intent.value]
        (GlobalHeap.extra intent.value key.value value.value value.high value.blocked)
      let update := fun (post : State) => do
        let tainted ← post.taint receiver.toNat value.high
        tainted.set cx.shape.returnSlot (← tainted.register receiver.toNat)
      return fact :: (← cx.updateAndLift valueRegister update)
  | .getAction => do
      let intent ← cx.argumentCell call 0
      cx.returns [cx.anyExtra intent.value] ((cx.loaded Names.read).withHigh .ff)
  | .getExtra => do
      let intent ← cx.argumentCell call 0
      let extra := cx.loaded Names.read
      let result := if cx.callsSource call then extra.withHigh .tt else extra
      cx.returns [cx.anyExtra intent.value] result
  | .retargetIntent => do
      let receiver ← call.argument 0
      let componentRegister ← call.argument (call.arguments.length - 1)
      let intent ← cx.register receiver
      let component ← cx.register componentRegister
      let extra := cx.loaded Names.read
      let fact := cx.derive [cx.anyExtra intent.value]
        (GlobalHeap.extra intent.value component.value extra.value extra.high extra.isGlobal)
      return fact :: (← cx.returns [] intent)
  | .startActivity => do
      let intent ← cx.argumentCell call 1
      let launched := cx.variable_ Names.field
      let extra := cx.loaded Names.read
      let guard := [Atom.toFormula (cx.anyExtra intent.value)]
      return [
        cx.derive guard
          (GlobalHeap.launch launched cx.activity extra.value extra.high extra.isGlobal),
        cx.derive guard
          (GlobalHeap.object launched launched (cx.namedKey GlobalHeap.parentField) cx.activity
            .ff .tt),
        cx.derive guard
          (GlobalHeap.object launched launched (cx.namedKey GlobalHeap.intentField) intent.value
            .ff .tt),
        cx.identity]
  | .setResult => do
      let intent ← cx.argumentCell call 2
      return [
        cx.derive [cx.anyExtra intent.value]
          (GlobalHeap.holding cx.activity cx.activity (cx.namedKey GlobalHeap.resultField) intent),
        cx.identity]
  | .getIntent =>
      cx.returns
        [cx.loadedFrom Names.read cx.activity cx.activity (cx.namedKey GlobalHeap.intentField)]
        (cx.loaded Names.read)
  | .marshallParcel => do
      cx.returns [] (← cx.argumentCell call 0)
  | .unmarshallParcel => do
      let receiver ← call.argument 0
      let bytes ← cx.argumentCell call 1
      cx.assign receiver [] bytes
  | .writeParcel => do
      let parcelRegister ← call.argument 0
      let valueRegister ← call.argument 1
      let parcel ← cx.register parcelRegister
      let value ← cx.register valueRegister
      let content :=
        GlobalHeap.holding (cx.classLiteral parcelClass) parcel.value (cx.literal 0) value
      cx.store (cx.derive [] content) valueRegister
  | .readParcel => do
      let parcel ← cx.argumentCell call 0
      cx.returns
        [cx.loadedFrom Names.field (cx.classLiteral parcelClass) parcel.value (cx.literal 0)]
        (cx.loaded Names.field)
  | .newException => do
      let exceptionRegister ← call.argument 0
      let messageRegister ← call.argument 1
      let exception ← cx.register exceptionRegister
      let message ← cx.register messageRegister
      cx.store
        (cx.derive []
          (GlobalHeap.holding (cx.classLiteral exceptionClass) exception.value
            (cx.namedKey GlobalHeap.messageField) message))
        messageRegister
  | .getMessage => do
      let exception ← cx.argumentCell call 0
      cx.returns
        [cx.loadedFrom Names.field (cx.classLiteral exceptionClass) exception.value
          (cx.namedKey GlobalHeap.messageField)]
        (cx.loaded Names.field)
  | .systemObject => do
      let id := cx.idLiteral cx.allocation
      let fact := cx.derive []
        (GlobalHeap.object (cx.classLiteral call.target.returnType) id (cx.variable_ Names.field)
          (cx.variable_ Names.anyValue) .ff (.var Names.fieldBlocked))
      return fact :: (← cx.returns [] (.globalRef id .ff))
  | .newPoint => do
      let point ← cx.argumentCell call 0
      let x ← cx.argumentCell call 1
      let y ← cx.argumentCell call 2
      let coordinate := fun (name : String) (value : Cell) =>
        cx.derive [] (GlobalHeap.holding (cx.classLiteral pointClass) point.value
          (GlobalHeap.fieldKey cx.width name "F") value)
      return [coordinate "x" x, coordinate "y" y, cx.identity]
  | .putEntry => do
      let mapRegister ← call.argument 0
      let keyRegister ← call.argument 1
      let valueRegister ← call.argument 2
      let map ← cx.register mapRegister
      let key ← cx.register keyRegister
      let value ← cx.register valueRegister
      let entry := GlobalHeap.holding (cx.classLiteral mapClass) map.value key.value value
      let update := fun (post : State) => post.set cx.shape.returnSlot (.zero cx.width)
      return cx.derive [] entry :: (← cx.updateAndLift valueRegister update)
  | .getEntry => do
      let map ← cx.argumentCell call 0
      let key ← cx.argumentCell call 1
      cx.returns [cx.loadedFrom Names.field (cx.classLiteral mapClass) map.value key.value]
        (cx.loaded Names.field)
  | .copyChars => do
      let text ← cx.argumentCell call 0
      let chars ← cx.argumentCell call 3
      let classKey := cx.classLiteral charArray
      return [
        cx.derive [cx.loadedFrom Names.anyValue classKey chars.value (cx.literal 0)]
          (GlobalHeap.object classKey chars.value (cx.literal 0) (cx.variable_ Names.anyField)
            text.high text.blocked),
        cx.identity]
  | .newFormatter => do
      let formatter ← cx.argumentCell call 0
      let buffer ← cx.argumentCell call 1
      return [
        cx.derive []
          (GlobalHeap.object (cx.classLiteral stringBufferClass) buffer.value (cx.literal 0)
            formatter.value .ff .tt),
        cx.identity]
  | .format => do
      let formatter ← cx.argumentCell call 0
      let pattern ← cx.argumentCell call 1
      let values ← cx.argumentCell call 2
      let classKey := cx.classLiteral stringBufferClass
      let buffer := cx.variable_ Names.field
      let linked := GlobalHeap.object classKey buffer (cx.literal 0) formatter.value
        (.var Names.fieldHigh) (.var Names.fieldBlocked)
      let fact := cx.derive [linked]
        (GlobalHeap.object classKey buffer (cx.literal 0) formatter.value
          (pattern.high.either values.high) .tt)
      return fact :: (← cx.returns [] formatter)
  | .bufferText => do
      let buffer ← cx.argumentCell call 0
      let text := cx.variable_ Names.anyField
      let formatted ← cx.returns
        [cx.loadedFrom Names.field (cx.classLiteral stringBufferClass) buffer.value (cx.literal 0)]
        { cx.loaded Names.field with value := text }
      let plain ← cx.returns [] (.globalRef text buffer.high)
      return formatted ++ plain
  | .copyArray => do
      let source ← cx.argumentCell call 0
      let target ← cx.argumentCell call 2
      let classKey := cx.variable_ Names.className
      let field := cx.variable_ Names.field
      return [
        cx.derive [cx.loadedFrom Names.read classKey source.value field]
          (cx.loadedFrom Names.read classKey target.value field),
        cx.identity]
  | .getHint => do
      let view ← cx.argumentCell call 0
      let stored ← cx.returns
        [cx.loadedFrom Names.field (cx.classLiteral buttonClass) view.value
          (cx.namedKey GlobalHeap.hintField)]
        (cx.loaded Names.field)
      let unset ← cx.returns [] (.globalRef (cx.literal 0) .ff)
      return stored ++ unset
  | .setHint => do
      let viewRegister ← call.argument 0
      let hintRegister ← call.argument 1
      let view ← cx.register viewRegister
      let hint ← cx.register hintRegister
      let content := GlobalHeap.holding (cx.classLiteral buttonClass) view.value
        (cx.namedKey GlobalHeap.hintField) hint
      cx.store (cx.derive [] content) hintRegister

end DalvikHorn
