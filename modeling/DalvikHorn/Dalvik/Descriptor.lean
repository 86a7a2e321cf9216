import DalvikHorn.Error
import DalvikHorn.Ident
import DalvikHorn.Text.Blank

/-!
# Descriptors and references

Types are named by descriptors: a letter for a primitive type, `Lname;` for a
class, and a leading `[` for every array dimension.  A method reference is
written `Lclass;->name(parameters)return` and a field reference
`Lclass;->name:type`; white space at the ends of a reference has no meaning.
-/

namespace DalvikHorn

/-! ## Types -/

/-- The descriptor of strings. -/
def stringClass : String := "Ljava/lang/String;"

/-- The descriptor of intents. -/
def intentClass : String := "Landroid/content/Intent;"

/-- The descriptor of string buffers. -/
def stringBufferClass : String := "Ljava/lang/StringBuffer;"

/-- The descriptor of character arrays. -/
def charArray : String := "[C"

/-- The signature of static initialisers. -/
def staticInitializer : String := "<clinit>()V"

/-- Whether a letter names a primitive type. -/
def isPrimitiveLetter (c : Char) : Bool :=
  "ZBSCIJFD".toList.contains c

/-- Whether a descriptor is that of a primitive type. -/
def isPrimitive (descriptor : String) : Bool :=
  match descriptor.toList with
  | [c] => isPrimitiveLetter c
  | _ => false

/-- What a method returns. -/
inductive ReturnKind where
  | void | primitive | string | array | object
  deriving DecidableEq, Repr

/-- The kind of a return descriptor. -/
def ReturnKind.ofDescriptor (descriptor : String) : ReturnKind :=
  if descriptor = "V" then .void
  else if descriptor = stringClass then .string
  else if descriptor.toList.head? = some '[' then .array
  else if isPrimitive descriptor then .primitive
  else .object

/-- Whether a call leaves a result. -/
def ReturnKind.returnsValue (kind : ReturnKind) : Bool :=
  kind != .void

/-- The identifier of a field. -/
def fieldId (name type : String) : FieldId :=
  textHash (name ++ ":" ++ type)

/-! ## Parameter lists -/

/-- What a scan of a parameter list found wrong. -/
inductive ParameterFault where
  | unterminatedClass | badDescriptor
  deriving DecidableEq, Repr

/-- Splits the rest of a parameter list.  The characters of the descriptor at hand are in
`pending`, last first, and `inClass` tells whether they have reached a class name. -/
def splitDescriptors (pending : List Char) (inClass : Bool) :
    List Char → Except ParameterFault (List String)
  | [] =>
      if inClass then .error .unterminatedClass
      else if pending.isEmpty then .ok []
      else .error .badDescriptor
  | c :: rest =>
      let extended := c :: pending
      if inClass then
        if c = ';' then
          (splitDescriptors [] false rest).map (String.ofList extended.reverse :: ·)
        else
          splitDescriptors extended true rest
      else if c = '[' then splitDescriptors extended false rest
      else if c = 'L' then splitDescriptors extended true rest
      else if isPrimitiveLetter c then
        (splitDescriptors [] false rest).map (String.ofList extended.reverse :: ·)
      else .error .badDescriptor

/-- The descriptors of a parameter list. -/
def splitParameters (parameters : String) : Except ReferenceError (List String) :=
  match splitDescriptors [] false parameters.toList with
  | .ok descriptors => .ok descriptors
  | .error .unterminatedClass => .error (.unterminatedClass parameters)
  | .error .badDescriptor => .error (.badParameter parameters)

/-! ## Scanning -/

/-- A class name and what follows it: some characters up to a semicolon. -/
def scanClassName? (text : List Char) : Option (List Char × List Char) :=
  match text with
  | 'L' :: rest =>
      let name := rest.takeWhile (· != ';')
      match rest.dropWhile (· != ';') with
      | ';' :: after => if name.isEmpty then none else some ('L' :: name ++ [';'], after)
      | _ => none
  | _ => none

/-- The type that owns a method, and what follows it: a class, or an array of classes or
primitives. -/
def scanOwner? (text : List Char) : Option (List Char × List Char) :=
  let brackets := text.takeWhile (· == '[')
  let element := text.dropWhile (· == '[')
  match scanClassName? element, element with
  | some (name, rest), _ => some (brackets ++ name, rest)
  | none, c :: rest =>
      if !brackets.isEmpty && isPrimitiveLetter c then some (brackets ++ [c], rest) else none
  | none, [] => none

/-- What follows the arrow of a reference. -/
def skipArrow? : List Char → Option (List Char)
  | '-' :: '>' :: rest => some rest
  | _ => none

/-- A name of at least one character that ends before `stop` and has no white space, and
what follows `stop`. -/
def scanName? (stop : Char) (text : List Char) : Option (List Char × List Char) :=
  let inName := fun c => c != stop && !isBlank c
  let name := text.takeWhile inName
  match text.dropWhile inName with
  | c :: rest => if c == stop && !name.isEmpty then some (name, rest) else none
  | [] => none

/-- The rest of a reference as a descriptor: at least one character and no white space. -/
def scanDescriptor? (text : List Char) : Option (List Char) :=
  if text.isEmpty || text.any isBlank then none else some text

/-! ## Methods -/

/-- A reference to a method. -/
structure MethodRef where
  owner : String
  name : String
  parameters : List String
  returnType : String
  deriving DecidableEq, Repr

namespace MethodRef

/-- The four parts of a method reference, the parameters still in one piece. -/
def parts? (text : List Char) : Option (List Char × List Char × List Char × List Char) := do
  let (owner, rest) ← scanOwner? text
  let rest ← skipArrow? rest
  let (name, rest) ← scanName? '(' rest
  let parameters := rest.takeWhile (· != ')')
  let returnType ← scanDescriptor? ((rest.dropWhile (· != ')')).drop 1)
  return (owner, name, parameters, returnType)

/-- Reads a method reference. -/
def parse (text : String) : Except ReferenceError MethodRef :=
  match parts? (trimBlanks text.toList) with
  | none => .error (.malformedMethod text)
  | some (owner, name, parameters, returnType) =>
      (splitParameters (String.ofList parameters)).map fun descriptors =>
        { owner := String.ofList owner
          name := String.ofList name
          parameters := descriptors
          returnType := String.ofList returnType }

variable (method : MethodRef)

/-- The method without its class. -/
def signature : String :=
  method.name ++ "(" ++ String.join method.parameters ++ ")" ++ method.returnType

/-- The text of a method reference. -/
def text : String :=
  method.owner ++ "->" ++ method.signature

/-- The identifier of the class. -/
def classId : ClassId :=
  textHash method.owner

/-- The identifier of the method. -/
def methodId : MethodId :=
  textHash method.signature

/-- What the method returns. -/
def returnKind : ReturnKind :=
  .ofDescriptor method.returnType

end MethodRef

/-! ## Fields -/

/-- A reference to a field. -/
structure FieldRef where
  owner : String
  name : String
  type : String
  deriving DecidableEq, Repr

namespace FieldRef

/-- The three parts of a field reference. -/
def parts? (text : List Char) : Option (List Char × List Char × List Char) := do
  let (owner, rest) ← scanClassName? text
  let rest ← skipArrow? rest
  let (name, rest) ← scanName? ':' rest
  let type ← scanDescriptor? rest
  return (owner, name, type)

/-- Reads a field reference. -/
def parse (text : String) : Except ReferenceError FieldRef :=
  match parts? (trimBlanks text.toList) with
  | none => .error (.malformedField text)
  | some (owner, name, type) =>
      .ok { owner := String.ofList owner, name := String.ofList name, type := String.ofList type }

variable (field : FieldRef)

/-- The identifier of the class. -/
def classId : ClassId :=
  textHash field.owner

/-- The identifier of the field. -/
def fieldId : FieldId :=
  DalvikHorn.fieldId field.name field.type

end FieldRef

end DalvikHorn
