import DalvikHorn.CommandLine.Invocation
import DalvikHorn.Compile.Program
import DalvikHorn.Config.Yaml
import DalvikHorn.Dalvik.Json

/-!
# Running commands

A command is run on the contents of the files that it names.  What it does to
the world is a value: a text to print or to write to a file, and a line about
the result.
-/

namespace DalvikHorn

/-- What a successful command does. -/
structure Outcome where
  /-- What is printed. -/
  printed : String := ""
  /-- A file that is written, before anything is printed. -/
  written : Option (String × String) := none
  /-- A line about the result, which is printed apart from the rest. -/
  summary : Option String := none
  deriving DecidableEq, Repr

/-- How often what was compiled. -/
def Report.summary (report : Report) : String :=
  s!"relations: {report.relations}, clauses: {report.clauses}, queries: {report.queries} " ++
    s!"({report.methodsCompiled} methods compiled, {report.methodsSkipped} skipped)"

namespace CompileRequest

variable (request : CompileRequest) (files : String → Option String)

/-- The configuration of a request. -/
def loadConfig : Except Error Config := do
  let config ←
    match request.config with
    | none => .ok ({} : Config)
    | some path =>
        match files path with
        | none => .error (.config .unreadableFile)
        | some text => (Config.parseYaml text).mapError .config
  return { config with
    sources := if request.sources.isEmpty then config.sources else request.sources
    sinks := if request.sinks.isEmpty then config.sinks else request.sinks }

/-- The program of a request. -/
def loadProgram : Except Error Program :=
  match files request.program with
  | none => .error .unreadableFile
  | some text => Program.parse text

/-- Compiles the program of a request. -/
def run : Except Error Outcome := do
  let config ← request.loadConfig files
  let program ← request.loadProgram files
  let compilation ← program.compile config
  let script ← compilation.render config
  let summary := some compilation.report.summary
  match request.output with
  | some path => return { written := some (path, script), summary := summary }
  | none => return { printed := script, summary := summary }

end CompileRequest

namespace Invocation

/-- The files that a command reads. -/
def inputs : Invocation → List String
  | .compile request => request.config.toList ++ [request.program]
  | .config _ => []
  | .help _ => []

/-- Runs a command on the contents of files. -/
def run (command : Invocation) (files : String → Option String) : Except Error Outcome :=
  match command with
  | .compile request => request.run files
  | .config name =>
      match Preset.parse name with
      | .ok preset => .ok { printed := (Config.ofPreset preset).toYaml }
      | .error cause => .error (.config cause)
  | .help topic => .ok { printed := helpText topic }

end Invocation

/-- The exit code of a command that has succeeded. -/
def exitSuccess : UInt32 := 0

/-- The exit code of a command that has failed. -/
def exitFailure : UInt32 := 1

/-- The exit code of arguments that are no command. -/
def exitUsage : UInt32 := 2

end DalvikHorn
