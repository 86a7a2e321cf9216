/-!
# Options of a command

An option has a long name and maybe a letter.  Letters can be joined after one
dash, a value can follow its option directly or as the next argument, and two
dashes alone end the options.
-/

namespace DalvikHorn

/-- What follows an option. -/
inductive OptionKind where
  /-- Nothing, and the option may be repeated. -/
  | flag
  /-- Nothing, and the rest of the arguments does not matter. -/
  | help
  /-- One value, and the option may not be repeated. -/
  | single (mayBeEmpty : Bool)
  /-- One or more values, and the option may be repeated. -/
  | list
  deriving DecidableEq, Repr

/-- An option of a command. -/
structure OptionRule where
  long : String
  short : Option Char
  kind : OptionKind
  deriving DecidableEq, Repr

/-- Why arguments give no command to run. -/
inductive ArgumentStop where
  /-- The arguments do not follow the rules. -/
  | usage
  /-- Help is asked for. -/
  | help
  deriving DecidableEq, Repr

/-- The values that options have been given, in order. -/
abbrev GivenValues := List (String × String)

/-- The values of an option. -/
def GivenValues.valuesOf (given : GivenValues) (long : String) : List String :=
  (given.filter (·.1 == long)).map (·.2)

namespace OptionRule

/-- Gives an option a value. -/
def accept (rule : OptionRule) (value : String) (given : GivenValues) :
    Except ArgumentStop GivenValues :=
  match rule.kind with
  | .single mayBeEmpty =>
      if !(given.valuesOf rule.long).isEmpty || (value.isEmpty && !mayBeEmpty) then .error .usage
      else .ok (given ++ [(rule.long, value)])
  | .list => .ok (given ++ [(rule.long, value)])
  | .flag => .error .usage
  | .help => .error .usage

/-- Whether a value of an option may be followed by another one. -/
def takesMore (rule : OptionRule) : Bool :=
  rule.kind = .list

end OptionRule

/-- The option that waits for a value, and whether it has one already. -/
abbrev WaitingOption := Option (OptionRule × Bool)

/-- What has been read of some arguments. -/
structure OptionReader where
  given : GivenValues := []
  waiting : WaitingOption := none

namespace OptionReader

/-- Checks that no option lacks a value. -/
def settle (reader : OptionReader) : Except ArgumentStop OptionReader :=
  match reader.waiting with
  | some (_, false) => .error .usage
  | _ => .ok { reader with waiting := none }

/-- Reads an option, with or without a value that is attached to it. -/
def readOption (reader : OptionReader) (rule : OptionRule) (attached : Option String) :
    Except ArgumentStop OptionReader :=
  match rule.kind, attached with
  | .flag, none => .ok reader
  | .help, none => .error .help
  | _, some value => do return { given := ← rule.accept value reader.given }
  | _, none => .ok { reader with waiting := some (rule, false) }

/-- Reads letters after one dash. -/
def readLetters (rules : List OptionRule) (reader : OptionReader) :
    List Char → Except ArgumentStop OptionReader
  | [] => .ok reader
  | letter :: rest =>
      match rules.find? (·.short == some letter) with
      | none => .error .usage
      | some rule =>
          if rule.kind = .flag then readLetters rules reader rest
          else
            match rest, rule.kind with
            | [], _ => reader.readOption rule none
            | _, .help => .error .help
            | '=' :: value, _ => reader.readOption rule (some (String.ofList value))
            | value, _ => reader.readOption rule (some (String.ofList value))

/-- Reads a long name, which a value may follow after an equals sign. -/
def readLong (rules : List OptionRule) (reader : OptionReader) (text : List Char) :
    Except ArgumentStop OptionReader :=
  let name := String.ofList (text.takeWhile (· != '='))
  let attached :=
    match text.dropWhile (· != '=') with
    | [] => none
    | _ :: value => some (String.ofList value)
  match rules.find? (·.long == name) with
  | none => .error .usage
  | some rule => reader.readOption rule attached

/-- Reads a value. -/
def readValue (reader : OptionReader) (value : String) : Except ArgumentStop OptionReader :=
  match reader.waiting with
  | none => .error .usage
  | some (rule, _) => do
      let given ← rule.accept value reader.given
      return { given := given, waiting := if rule.takesMore then some (rule, true) else none }

/-- Reads arguments.  After two dashes no further argument may follow. -/
def readAll (rules : List OptionRule) (reader : OptionReader) :
    List String → Except ArgumentStop GivenValues
  | [] => do return (← reader.settle).given
  | argument :: rest =>
      match argument.toList with
      | ['-', '-'] => do
          let settled ← reader.settle
          if rest.isEmpty then return settled.given else throw .usage
      | '-' :: '-' :: text => do
          readAll rules (← readLong rules (← reader.settle) text) rest
      | '-' :: c :: letters => do
          readAll rules (← readLetters rules (← reader.settle) (c :: letters)) rest
      | _ => do readAll rules (← reader.readValue argument) rest

end OptionReader

end DalvikHorn
