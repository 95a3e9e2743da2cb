import Pipewright.Host.Basic
import Pipewright.Settings.Document

/-! # The command line
One command describes a unit: what its metadata say and with how many arguments it can be run. The
rest is help. What is printed is worked out here; reading files and printing is left to the
program. -/

namespace Pipewright.CommandLine

/-- The name of the program. -/
def programName : String := "pipeline-creator"

/-- What the program is asked for. -/
inductive Request where
  /-- Describe the unit of a path. -/
  | describe (path : String)
  /-- Print a text. -/
  | print (text : String)
  /-- What is asked for makes no sense. -/
  | misuse
deriving DecidableEq, Repr

/-- How a run of the program ends. -/
structure Outcome where
  /-- The exit code. -/
  code : Nat
  /-- What is printed. -/
  output : String
  /-- What is said about a failure. -/
  complaint : String
deriving DecidableEq, Repr

/-! ## Help -/

/-- The lines of a text. -/
def page (lines : List String) : String := String.join (lines.map fun line => line ++ "\n")

/-- The help for the program. -/
def help : String :=
  page
    ["Validates typed pipeline graphs and generates runnable Rhai pipeline modules", "",
      "Usage: " ++ programName ++ " <COMMAND>", "",
      "Commands:",
      "  describe  Print the metadata of a generated unit",
      "  help      Print this message or the help of the given subcommand(s)", "",
      "Options:",
      "  -h, --help     Print help",
      "  -V, --version  Print version"]

/-- The help for the command that describes a unit. -/
def describeHelp : String :=
  page
    ["Print the metadata of a generated unit", "",
      "Usage: " ++ programName ++ " describe <PATH>", "",
      "Arguments:",
      "  <PATH>  ", "",
      "Options:",
      "  -h, --help  Print help"]

/-- The help for the command that prints help. -/
def helpHelp : String :=
  page
    ["Print this message or the help of the given subcommand(s)", "",
      "Usage: " ++ programName ++ " help [COMMAND]...", "",
      "Arguments:",
      "  [COMMAND]...  Print help for the subcommand(s)"]

/-- The name of the program and its version. -/
def version : String := page [programName ++ " 0.1.0"]

/-! ## Reading arguments -/

/-- Whether an argument is spelled like an option. A single hyphen is a value. -/
def isOption (argument : String) : Bool :=
  match argument.toList with
  | '-' :: _ :: _ => true
  | _ => false

/-- Whether an argument asks for help, maybe among other short options. -/
def asksForHelp (argument : String) : Bool :=
  argument == "--help" || (Text.dropLead? ['-', 'h'] argument.toList).isSome

/-- Whether an argument asks for the version, maybe among other short options. -/
def asksForVersion (argument : String) : Bool :=
  argument == "--version" || (Text.dropLead? ['-', 'V'] argument.toList).isSome

/-- What is asked for behind the path of a unit; the flag says that options are over. -/
def behindPath (path : String) : Bool → List String → Request
  | _, [] => .describe path
  | false, "--" :: rest => behindPath path true rest
  | false, argument :: _ => if asksForHelp argument then .print describeHelp else .misuse
  | true, _ :: _ => .misuse

/-- A path, which must not be empty, and what is behind it. -/
def pathThen (ended : Bool) (argument : String) (rest : List String) : Request :=
  if argument == "" then .misuse else behindPath argument ended rest

/-- What is asked for behind the command that describes a unit. -/
def behindDescribe : List String → Request
  | [] => .misuse
  | ["--"] => .misuse
  | "--" :: argument :: rest => pathThen true argument rest
  | argument :: rest =>
    if asksForHelp argument then .print describeHelp
    else if isOption argument then .misuse
    else pathThen false argument rest

/-- What is asked for behind the command that prints help. -/
def behindHelp : List String → Request
  | [] => .print help
  | ["describe"] => .print describeHelp
  | ["help"] => .print helpHelp
  | _ => .misuse

/-- What the arguments of the program ask for. -/
def request : List String → Request
  | "describe" :: rest => behindDescribe rest
  | "help" :: rest => behindHelp rest
  | argument :: _ =>
    if asksForHelp argument then .print help
    else if asksForVersion argument then .print version
    else .misuse
  | [] => .misuse

/-! ## Describing a unit -/

/-- The description of a unit. -/
def description (m : Metadata) (runFunction : String) (arities : List Nat) : String :=
  page
    ([m.title,
        "  categories:    " ++ ", ".intercalate m.categories,
        "  dependencies:  " ++ ", ".intercalate m.dependencies,
        "  contributors:  " ++ ", ".intercalate m.contributors] ++
      (m.icon?.map fun icon => "  icon:          " ++ icon).toList ++
      ["  " ++ runFunction ++ " arities:    " ++ ", ".intercalate (arities.map toString), "",
        m.helpText])

/-- The description of the unit of a file, whose text may be missing. -/
def describe (s : Settings) (path : String) (source : Option String) : Except Failure String := do
  let h := { Host.new .empty [] with runFunction := s.runFunction }
  let (u, h) ← (h.loadFile path source).mapError fun f => f.within ("Failed to load " ++ path)
  let m ← (h.metadata u).1.mapError fun f => f.within (path ++ " has no usable module_info()")
  return description m s.runFunction u.runArities

/-- How the program ends, given the settings document and the texts of files, each of which may be
missing. -/
def run (arguments : List String) (settings : Option String) (source : String → Option String) :
    Outcome :=
  match request arguments with
  | .print text => ⟨0, text, ""⟩
  | .misuse => ⟨2, "", help⟩
  | .describe path =>
    match describe (Settings.loadOrStandard settings) path (source path) with
    | .ok text => ⟨0, text, ""⟩
    | .error f => ⟨1, "", "Error: " ++ f.display ++ "\n"⟩

end Pipewright.CommandLine
