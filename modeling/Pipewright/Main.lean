import Pipewright.CommandLine

/-! # The program
Reads the files that the command line asks for, prints what comes of it, and ends. -/

open Pipewright

/-- The text of a file, if it can be read. -/
def fileText (path : String) : IO (Option String) := do
  try return some (← IO.FS.readFile path)
  catch _ => return none

/-- The path of the settings document of whoever runs the program. -/
def settingsPath : IO (Option String) := do
  let directory ← match ← IO.getEnv "XDG_CONFIG_HOME" with
    | some path => if Path.isAbsolute path then pure (some path) else homeDirectory
    | none => homeDirectory
  return directory.map fun path =>
    Path.join (Path.join path "dev.pipeline-creator") "generator.toml"
where
  /-- Where settings are kept below the home directory. -/
  homeDirectory : IO (Option String) := do
    return (← IO.getEnv "HOME").map fun home => Path.join home ".config"

/-- Run the program. -/
def main (arguments : List String) : IO UInt32 := do
  let settings ← match ← settingsPath with
    | some path => fileText path
    | none => pure none
  let source ← match CommandLine.request arguments with
    | .describe path => fileText path
    | _ => pure none
  let outcome := CommandLine.run arguments settings fun _ => source
  IO.print outcome.output
  IO.eprint outcome.complaint
  return UInt32.ofNat outcome.code
