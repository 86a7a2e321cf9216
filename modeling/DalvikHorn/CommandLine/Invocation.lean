import DalvikHorn.CommandLine.Options

/-!
# Invocations

There are two commands: one compiles a program, the other one prints a preset.
Arguments that ask for help are a command too.
-/

namespace DalvikHorn

/-- What help is about. -/
inductive HelpTopic where
  | general
  | compile
  | config
  | help
  deriving DecidableEq, Repr

/-- The arguments of the command that compiles a program. -/
structure CompileRequest where
  /-- The file of the program. -/
  program : String
  /-- The file of the configuration. -/
  config : Option String := none
  /-- The file that the script is written to. -/
  output : Option String := none
  /-- Sources that replace the configured ones, unless there are none. -/
  sources : List String := []
  /-- Sinks that replace the configured ones, unless there are none. -/
  sinks : List String := []
  deriving DecidableEq, Repr

/-- What the arguments ask for. -/
inductive Invocation where
  | compile (request : CompileRequest)
  | config (preset : String)
  | help (topic : HelpTopic)
  deriving DecidableEq, Repr

namespace Invocation

/-! ## Options -/

/-- The options of every command. -/
def commonOptions : List OptionRule :=
  [{ long := "verbose", short := some 'v', kind := .flag },
    { long := "help", short := some 'h', kind := .help }]

/-- The options of the command that compiles a program. -/
def compileOptions : List OptionRule :=
  [{ long := "program", short := some 'p', kind := .single false },
    { long := "config", short := some 'c', kind := .single false },
    { long := "output", short := some 'o', kind := .single false },
    { long := "sources", short := none, kind := .list },
    { long := "sinks", short := none, kind := .list }] ++ commonOptions

/-- The options of the command that prints a preset. -/
def configOptions : List OptionRule :=
  { long := "preset", short := some 'p', kind := .single true } :: commonOptions

/-! ## Reading -/

/-- Reads the arguments of the command that compiles a program. -/
def parseCompile (arguments : List String) : Option Invocation :=
  match OptionReader.readAll compileOptions {} arguments with
  | .error .help => some (.help .compile)
  | .error .usage => none
  | .ok given =>
      (given.valuesOf "program").head?.map fun program =>
        .compile {
          program := program
          config := (given.valuesOf "config").head?
          output := (given.valuesOf "output").head?
          sources := given.valuesOf "sources"
          sinks := given.valuesOf "sinks" }

/-- Reads the arguments of the command that prints a preset. -/
def parseConfig (arguments : List String) : Option Invocation :=
  match OptionReader.readAll configOptions {} arguments with
  | .error .help => some (.help .config)
  | .error .usage => none
  | .ok given => some (.config ((given.valuesOf "preset").head?.getD "custom"))

/-- Reads the arguments of a request for help. -/
def parseHelp : List String → Option Invocation
  | [] => some (.help .general)
  | ["compile"] => some (.help .compile)
  | ["config"] => some (.help .config)
  | ["help"] => some (.help .help)
  | _ => none

/-- Reads arguments.  Common options may stand before the name of a command. -/
def parse : List String → Option Invocation
  | [] => none
  | "compile" :: rest => parseCompile rest
  | "config" :: rest => parseConfig rest
  | "help" :: rest => parseHelp rest
  | argument :: rest =>
      match OptionReader.readAll commonOptions {} [argument] with
      | .error .help => some (.help .general)
      | .error .usage => none
      | .ok _ => if argument = "--" then none else parse rest

/-! ## Help -/

/-- The text that explains a command. -/
def helpText : HelpTopic → String
  | .general => "\n".intercalate [
      "Compile Dalvik program models into Horn clauses for taint analysis",
      "",
      "Usage: droidchc [OPTIONS] <COMMAND>",
      "",
      "Commands:",
      "  compile  Compile a JSON program model",
      "  config   Print a preset configuration as YAML",
      "  help     Print this message or the help of the given subcommand(s)",
      "",
      "Options:",
      "  -v, --verbose...  Increase log verbosity (-v debug, -vv trace)",
      "  -h, --help        Print help",
      ""]
  | .compile => "\n".intercalate [
      "Compile a JSON program model",
      "",
      "Usage: droidchc compile [OPTIONS] --program <PROGRAM>",
      "",
      "Options:",
      "  -p, --program <PROGRAM>     Program model (JSON)",
      "  -v, --verbose...            Increase log verbosity (-v debug, -vv trace)",
      "  -c, --config <CONFIG>       Analysis configuration (YAML v1)",
      "  -o, --output <OUTPUT>       Output file; stdout when omitted",
      "      --sources <SOURCES>...  Source signatures, replacing the configured ones",
      "      --sinks <SINKS>...      Sink signatures, replacing the configured ones",
      "  -h, --help                  Print help",
      ""]
  | .config => "\n".intercalate [
      "Print a preset configuration as YAML",
      "",
      "Usage: droidchc config [OPTIONS]",
      "",
      "Options:",
      "  -p, --preset <PRESET>  fast, precise or custom [default: custom]",
      "  -v, --verbose...       Increase log verbosity (-v debug, -vv trace)",
      "  -h, --help             Print help",
      ""]
  | .help => "\n".intercalate [
      "Print this message or the help of the given subcommand(s)",
      "",
      "Usage: droidchc help [COMMAND]...",
      "",
      "Arguments:",
      "  [COMMAND]...  Print help for the subcommand(s)",
      ""]

end Invocation

end DalvikHorn
