import DalvikHorn.CommandLine.Run

/-! # The command line -/

namespace DalvikHorn

/-- The content of a file, if it can be read. -/
def readFile? (path : String) : IO (Option String) := do
  try
    return some (← IO.FS.readFile path)
  catch _ =>
    return none

/-- Writes a file and tells whether this has succeeded. -/
def tryWriteFile (path content : String) : IO Bool := do
  try
    IO.FS.writeFile path content
    return true
  catch _ =>
    return false

/-- Does what a command has resulted in. -/
def Outcome.perform (result : Outcome) : IO UInt32 := do
  let succeeded ←
    match result.written with
    | none => pure true
    | some (path, content) => tryWriteFile path content
  if succeeded then
    IO.print result.printed
    if let some summary := result.summary then
      IO.eprintln summary
    return exitSuccess
  else
    IO.eprintln (Error.message .unreadableFile)
    return exitFailure

end DalvikHorn

open DalvikHorn

/-- Runs the command that the arguments give. -/
def main (arguments : List String) : IO UInt32 := do
  match Invocation.parse arguments with
  | none =>
      IO.eprint (Invocation.helpText .general)
      return exitUsage
  | some command =>
      let contents ← command.inputs.mapM fun path => do return (path, ← readFile? path)
      match command.run fun path => (contents.lookup path).join with
      | .error error =>
          IO.eprintln error.message
          return exitFailure
      | .ok result => result.perform
