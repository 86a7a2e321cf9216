import DalvikHorn.Dalvik.Program
import DalvikHorn.Json.Reader
import DalvikHorn.Json.Writer

/-!
# Programs as JSON

Every part of a program is a record.  Unknown keys are skipped, also when their
values have no meaning.  Absent lists are empty, absent flags have a default, and
optional operands that are absent are not written.

A payload is read as a whole before its kind is known, so all of it has to be
readable and it may not be nested too deeply.
-/

namespace DalvikHorn

open Json (fields? required withDefault optional)

/-! ## Decoding -/

/-- How many arrays and objects may stand around a value that is read as a whole. -/
def maxNesting : Nat := 127

/-- Reads a range of registers. -/
def RegisterRange.ofJson? (value : Json) : Option RegisterRange :=
  match fields? ["start", "count"] value with
  | some [start, count] => do
      return { start := ← required Json.uint32? start, count := ← required Json.uint32? count }
  | _ => none

namespace Payload

/-- Reads the fields of a payload of a kind. -/
def ofKind? (kind : String) (fields : Json) : Option Payload :=
  if kind = "packed_switch" then
    match fields? ["first_key", "targets"] fields with
    | some [firstKey, targets] => do
        return .packedSwitch (← required Json.int32? firstKey)
          (← required (Json.list? Json.int32?) targets)
    | _ => none
  else if kind = "sparse_switch" then
    match fields? ["entries"] fields with
    | some [entries] => do
        return .sparseSwitch (← required (Json.list? (Json.pair? Json.int32? Json.int32?)) entries)
    | _ => none
  else if kind = "array_data" then
    match fields? ["elements"] fields with
    | some [elements] => do
        return .arrayData (← required (Json.list? Json.int64?) elements)
    | _ => none
  else none

/-- Reads a payload that stands inside `depth` arrays and objects.  Its kind is one of its
members, or the first item when it is written as an array. -/
def ofJson? (depth : Nat) (value : Json) : Option Payload :=
  if value.readable && depth + value.nesting ≤ maxNesting then
    match value with
    | .object members => do
        let kind ← (← Json.member? members "kind").bind Json.string?
        ofKind? kind (.object (members.filter (·.1 != "kind")))
    | .array (.string kind :: items) => ofKind? kind (.array items)
    | _ => none
  else none

end Payload

/-- Reads an instruction that stands inside `depth` arrays and objects. -/
def Instruction.ofJson? (depth : Nat) (value : Json) : Option Instruction :=
  match fields? ["pc", "opcode", "registers", "register_range", "literal", "reference", "target",
    "payload"] value with
  | some [pc, opcode, registers, registerRange, literal, reference, target, payload] => do
      return {
        pc := ← required Json.uint32? pc
        mnemonic := ← required Json.string? opcode
        registers := ← withDefault [] (Json.list? Json.uint32?) registers
        registerRange := ← optional RegisterRange.ofJson? registerRange
        literal := ← optional Json.int64? literal
        reference := ← optional Json.string? reference
        target := ← optional Json.int32? target
        payload := ← optional (Payload.ofJson? (depth + 1)) payload }
  | _ => none

/-- Reads a method that stands inside `depth` arrays and objects. -/
def Method.ofJson? (depth : Nat) (value : Json) : Option Method :=
  match fields? ["name", "num_registers", "num_arguments", "is_static", "entry_point",
    "instructions"] value with
  | some [name, numRegisters, numArguments, isStatic, entryPoint, instructions] => do
      return {
        name := ← required Json.string? name
        numRegisters := ← required Json.uint32? numRegisters
        numArguments := ← required Json.uint32? numArguments
        isStatic := ← withDefault false Json.bool? isStatic
        entryPoint := ← withDefault false Json.bool? entryPoint
        instructions :=
          ← withDefault [] (Json.list? (Instruction.ofJson? (depth + 2))) instructions }
  | _ => none

/-- Reads a field. -/
def Field.ofJson? (value : Json) : Option Field :=
  match fields? ["name", "type", "is_static", "initial_value"] value with
  | some [name, type, isStatic, initialValue] => do
      return {
        name := ← required Json.string? name
        type := ← required Json.string? type
        isStatic := ← withDefault false Json.bool? isStatic
        initialValue := ← optional Json.int64? initialValue }
  | _ => none

/-- Reads a class that stands inside `depth` arrays and objects. -/
def Class.ofJson? (depth : Nat) (value : Json) : Option Class :=
  match fields? ["name", "super_class", "interfaces", "fields", "methods", "launcher"] value with
  | some [name, superClass, interfaces, fields, methods, launcher] => do
      return {
        name := ← required Json.string? name
        superClass := ← optional Json.string? superClass
        interfaces := ← withDefault [] (Json.list? Json.string?) interfaces
        fields := ← withDefault [] (Json.list? Field.ofJson?) fields
        methods := ← withDefault [] (Json.list? (Method.ofJson? (depth + 2))) methods
        launcher := ← withDefault true Json.bool? launcher }
  | _ => none

/-- Reads a program. -/
def Program.ofJson? (value : Json) : Option Program :=
  match fields? ["classes"] value with
  | some [classes] => do
      return { classes := ← withDefault [] (Json.list? (Class.ofJson? 2)) classes }
  | _ => none

/-- Reads the text of an instruction. -/
def Instruction.parse (text : String) : Except Error Instruction :=
  match (Json.parse text).bind (Instruction.ofJson? 0) with
  | some instruction => .ok instruction
  | none => .error .malformedJson

/-- Reads the text of a program. -/
def Program.parse (text : String) : Except Error Program :=
  match (Json.parse text).bind Program.ofJson? with
  | some program => .ok program
  | none => .error .malformedJson

/-! ## Encoding -/

/-- The members of an optional field. -/
def optionalMember {α : Type} (key : String) (encode : α → Json) :
    Option α → List (String × Json)
  | some value => [(key, encode value)]
  | none => []

/-- An unsigned 32-bit number. -/
def Json.ofUInt32 (value : UInt32) : Json :=
  .integer value.toNat

/-- A signed 32-bit number. -/
def Json.ofInt32 (value : Int32) : Json :=
  .integer value.toInt

/-- A signed 64-bit number. -/
def Json.ofInt64 (value : Int64) : Json :=
  .integer value.toInt

/-- A list of values. -/
def Json.ofList {α : Type} (encode : α → Json) (values : List α) : Json :=
  .array (values.map encode)

/-- A range of registers as a record. -/
def RegisterRange.toJson (range : RegisterRange) : Json :=
  .object [("start", .ofUInt32 range.start), ("count", .ofUInt32 range.count)]

/-- A payload as a record with its kind. -/
def Payload.toJson : Payload → Json
  | .packedSwitch firstKey targets =>
      .object [("kind", .string "packed_switch"), ("first_key", .ofInt32 firstKey),
        ("targets", .ofList .ofInt32 targets)]
  | .sparseSwitch entries =>
      .object [("kind", .string "sparse_switch"),
        ("entries", .ofList (fun (key, target) => .array [.ofInt32 key, .ofInt32 target]) entries)]
  | .arrayData elements =>
      .object [("kind", .string "array_data"), ("elements", .ofList .ofInt64 elements)]

/-- An instruction as a record. -/
def Instruction.toJson (instruction : Instruction) : Json :=
  .object <|
    [("pc", .ofUInt32 instruction.pc), ("opcode", .string instruction.mnemonic),
      ("registers", .ofList .ofUInt32 instruction.registers)] ++
    optionalMember "register_range" RegisterRange.toJson instruction.registerRange ++
    optionalMember "literal" .ofInt64 instruction.literal ++
    optionalMember "reference" .string instruction.reference ++
    optionalMember "target" .ofInt32 instruction.target ++
    optionalMember "payload" Payload.toJson instruction.payload

/-- A method as a record. -/
def Method.toJson (method : Method) : Json :=
  .object
    [("name", .string method.name), ("num_registers", .ofUInt32 method.numRegisters),
      ("num_arguments", .ofUInt32 method.numArguments), ("is_static", .bool method.isStatic),
      ("entry_point", .bool method.entryPoint),
      ("instructions", .ofList Instruction.toJson method.instructions)]

/-- A field as a record. -/
def Field.toJson (field : Field) : Json :=
  .object <|
    [("name", .string field.name), ("type", .string field.type),
      ("is_static", .bool field.isStatic)] ++
    optionalMember "initial_value" .ofInt64 field.initialValue

/-- A class as a record. -/
def Class.toJson (decl : Class) : Json :=
  .object <|
    [("name", .string decl.name)] ++
    optionalMember "super_class" .string decl.superClass ++
    [("interfaces", .ofList .string decl.interfaces),
      ("fields", .ofList Field.toJson decl.fields),
      ("methods", .ofList Method.toJson decl.methods), ("launcher", .bool decl.launcher)]

/-- A program as a record. -/
def Program.toJson (program : Program) : Json :=
  .object [("classes", .ofList Class.toJson program.classes)]

/-- The text of a program. -/
def Program.render (program : Program) : String :=
  program.toJson.render

end DalvikHorn
