/-!
# Errors

Every way in which reading a model, compiling it or loading a configuration can
fail is a constructor of `Error`; the wording is in one place, `Error.message`.
An error either concerns one method, which is then skipped, or it is *fatal* and
ends the whole run.
-/

namespace DalvikHorn

/-! ## References -/

/-- Why a textual reference to a method or a field was rejected. -/
inductive ReferenceError where
  | malformedMethod (text : String)
  | malformedField (text : String)
  | unterminatedClass (parameters : String)
  | badParameter (parameters : String)
  deriving DecidableEq, Repr

/-- The text of a rejected reference. -/
def ReferenceError.message : ReferenceError → String
  | .malformedMethod text => s!"malformed method reference {text}"
  | .malformedField text => s!"malformed field reference {text}"
  | .unterminatedClass parameters => s!"unterminated class in ({parameters})"
  | .badParameter parameters => s!"bad parameter descriptor in ({parameters})"

/-! ## Configurations -/

/-- The kind of a configuration error. -/
inductive ConfigErrorKind where
  | range | unknownField | missingVersion | unsupportedVersion | unknownPreset | io | yaml
  | validation
  deriving DecidableEq, Repr

/-- Why a configuration was rejected. -/
inductive ConfigError where
  /-- A number lies outside its bounds. -/
  | outOfRange (field : String) (value low high : Nat) (hint : String)
  /-- A section has a key that it does not know; `closest` is the nearest one that it does. -/
  | unknownField (field section_ : String) (closest : Option String)
  | missingVersion
  | unsupportedVersion (found : Nat) (supported : List Nat)
  | unknownPreset (name : String)
  /-- The file cannot be read. -/
  | unreadableFile
  /-- The text is not YAML, or does not follow the schema. -/
  | malformedYaml
  /-- A source or sink is no method reference. -/
  | invalidSignature (cause : ReferenceError)
  deriving DecidableEq, Repr

namespace ConfigError

/-- The kind of a configuration error. -/
def kind : ConfigError → ConfigErrorKind
  | .outOfRange .. => .range
  | .unknownField .. => .unknownField
  | .missingVersion => .missingVersion
  | .unsupportedVersion .. => .unsupportedVersion
  | .unknownPreset _ => .unknownPreset
  | .unreadableFile => .io
  | .malformedYaml => .yaml
  | .invalidSignature _ => .validation

/-- The text of a configuration error.  For a file that cannot be read and for
text that is not YAML only the kind is told. -/
def message : ConfigError → String
  | .outOfRange field value low high hint =>
      s!"Invalid range for field '{field}': {value} not in {low}..={high}. {hint}"
  | .unknownField field section_ closest =>
      let suggestion :=
        match closest with
        | some name => s!"Did you mean '{name}'?"
        | none => "No valid fields available"
      s!"Unknown field '{field}' in '{section_}'. {suggestion}"
  | .missingVersion =>
      "Missing 'version' field in configuration file. " ++
        "Add 'version: 1' to the top of your YAML file."
  | .unsupportedVersion found supported =>
      let versions := ", ".intercalate (supported.map fun version => s!"{version}")
      s!"Unsupported configuration version {found}. Supported versions: {versions}"
  | .unknownPreset name => s!"Unknown preset '{name}'. Valid presets: fast, precise, custom"
  | .unreadableFile => "IO error"
  | .malformedYaml => "YAML parsing error"
  | .invalidSignature cause => s!"Validation error: Model error: {cause.message}"

end ConfigError

/-! ## Models and compilation -/

/-- The kind of an error. -/
inductive ErrorKind where
  | io | json | model | payload | inconsistentAllocation | compile | config
  deriving DecidableEq, Repr

/-- What went wrong. -/
inductive Error where
  /-- A file cannot be read or written. -/
  | unreadableFile
  /-- The text is not JSON, or does not follow the model's schema. -/
  | malformedJson
  | reference (cause : ReferenceError)
  | missingRegister (opcode : String) (pc : UInt32) (index : Nat)
  | missingLiteral (opcode : String) (pc : UInt32)
  | missingReference (opcode : String) (pc : UInt32)
  | missingTarget (opcode : String) (pc : UInt32)
  /-- A branch goes before the first or past the last possible instruction. -/
  | branchOutOfRange (pc : UInt32) (offset : Int32)
  | registerOutOfRange (register slots : Nat)
  /-- A method has more arguments than registers. -/
  | argumentsExceedRegisters (owner method : String) (arguments registers : Nat)
  /-- An entry point has more arguments than registers. -/
  | entryExceedsRegisters (owner method : String)
  /-- A call target has more arguments than registers. -/
  | calleeExceedsRegisters
  | arrayDataAsSwitch
  | switchAsArrayData
  | missingPayload (opcode : String) (pc : UInt32) (method : String) (target : UInt32)
  /-- An allocation at a site that has no place in the local heap.  The previous object of
  such a site could not be lifted, so nothing can be compiled. -/
  | inconsistentAllocation (site : Int32) (owner method : String) (pc : UInt32)
  /-- A relation is used with two signatures. -/
  | signatureConflict (relation : String) (used declared : Nat)
  /-- A variable is used at two sorts. -/
  | sortConflict (variable_ : String)
  | heapSlotOutOfRange (slot size : Nat)
  /-- A library rule needs an argument that the call does not pass. -/
  | missingArgument (target : String) (index : Nat)
  | config (cause : ConfigError)
  deriving DecidableEq, Repr

namespace Error

/-- The kind of an error. -/
def kind : Error → ErrorKind
  | .unreadableFile => .io
  | .malformedJson => .json
  | .reference _ => .model
  | .missingRegister .. => .model
  | .missingLiteral .. => .model
  | .missingReference .. => .model
  | .missingTarget .. => .model
  | .branchOutOfRange .. => .model
  | .registerOutOfRange .. => .model
  | .argumentsExceedRegisters .. => .model
  | .entryExceedsRegisters .. => .model
  | .calleeExceedsRegisters => .model
  | .arrayDataAsSwitch => .payload
  | .switchAsArrayData => .payload
  | .missingPayload .. => .payload
  | .inconsistentAllocation .. => .inconsistentAllocation
  | .signatureConflict .. => .compile
  | .sortConflict _ => .compile
  | .heapSlotOutOfRange .. => .compile
  | .missingArgument .. => .compile
  | .config _ => .config

/-- Whether an error ends the whole run, and not only the method at hand. -/
def fatal (error : Error) : Bool :=
  error.kind = .inconsistentAllocation || error.kind = .io

/-- What an error says after its kind. -/
def detail : Error → String
  | .unreadableFile => ""
  | .malformedJson => ""
  | .reference cause => cause.message
  | .missingRegister opcode pc index => s!"{opcode} @pc {pc.toNat} has no register operand {index}"
  | .missingLiteral opcode pc => s!"{opcode} @pc {pc.toNat} has no literal"
  | .missingReference opcode pc => s!"{opcode} @pc {pc.toNat} has no reference"
  | .missingTarget opcode pc => s!"{opcode} @pc {pc.toNat} has no target"
  | .branchOutOfRange pc offset =>
      s!"branch from pc {pc.toNat} by {offset.toInt} leaves the method"
  | .registerOutOfRange register slots => s!"register v{register} out of range ({slots} slots)"
  | .argumentsExceedRegisters owner method arguments registers =>
      s!"{owner}->{method} declares {arguments} arguments in {registers} registers"
  | .entryExceedsRegisters owner method => s!"{owner}->{method}: more arguments than registers"
  | .calleeExceedsRegisters => "callee has more arguments than registers"
  | .arrayDataAsSwitch => "array data payload used as a switch table"
  | .switchAsArrayData => "switch payload used as array data"
  | .missingPayload opcode pc method target =>
      s!"{opcode} @pc {pc.toNat} of {method}: no payload at pc {target.toNat}"
  | .inconsistentAllocation site owner method pc =>
      s!"Inconsistent allocation at site {site.toInt} ({owner}->{method} @pc {pc.toNat})"
  | .signatureConflict relation used declared =>
      s!"relation {relation} used with arity {used} but declared with arity {declared}"
  | .sortConflict name => s!"variable {name} is used with more than one sort"
  | .heapSlotOutOfRange slot size => s!"local heap slot {slot} out of range ({size} slots)"
  | .missingArgument target index => s!"{target} has no argument {index}"
  | .config cause => cause.message

/-- What stands before the detail of an error of a kind. -/
def lead : ErrorKind → String
  | .io => "IO error: "
  | .json => "JSON error: "
  | .model => "Model error: "
  | .payload => "Payload error: "
  | .inconsistentAllocation => ""
  | .compile => "Compile error: "
  | .config => "Configuration error: "

/-- The text of an error. -/
def message (error : Error) : String :=
  lead error.kind ++ error.detail

end Error

end DalvikHorn
