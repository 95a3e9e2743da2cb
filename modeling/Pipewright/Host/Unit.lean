import Pipewright.Host.Evaluation
import Pipewright.Host.Failure
import Pipewright.Script.Parser
import Pipewright.Unit.Metadata

/-! # Loaded units
A unit that is ready to run, and the units that a host has ready by their names. A unit is loaded
again when its text has changed. -/

namespace Pipewright

/-- A unit that is ready to run. -/
structure LoadedUnit where
  /-- The name. -/
  name : String
  /-- The text. -/
  source : String
  /-- The program of the text. -/
  program : Script.Program
  /-- The name of the function that runs it. -/
  runFunction : String

namespace LoadedUnit

/-- Read the text of a unit. -/
def load (name source runFunction : String) : Except Failure LoadedUnit :=
  match Script.Program.ofText? source with
  | some program => .ok ⟨name, source, program, runFunction⟩
  | none =>
    .error ((Failure.script .refused).within ("Failed to compile pipeline '" ++ name ++ "'"))

/-- Whether there is a function of a name that takes a number of arguments. -/
def hasFunction (u : LoadedUnit) (name : String) (arity : Nat) : Bool :=
  u.program.hasFunction name arity

/-- The numbers of arguments with which the unit can be run. -/
def runArities (u : LoadedUnit) : List Nat := u.program.arities u.runFunction

/-- The text of a loaded unit. -/
def outline (u : LoadedUnit) : String :=
  "LoadedPipeline \x7b name: " ++ Text.quoted u.name ++ ", run_function: " ++
    Text.quoted u.runFunction ++ ", source_len: " ++ toString u.source.utf8ByteSize ++ " \x7d"

end LoadedUnit

/-- The units that are ready, by name. -/
structure UnitCache where
  /-- The units in ascending order of their names. -/
  units : List (String × LoadedUnit)

namespace UnitCache

/-- No units. -/
def empty : UnitCache := ⟨[]⟩

/-- The unit of a name, if its text is the same. -/
def unit? (c : UnitCache) (name source : String) : Option LoadedUnit :=
  (Keyed.lookup name c.units).filter fun u => u.source == source

/-- Keep a unit, in the place of the one of that name. -/
def insert (c : UnitCache) (u : LoadedUnit) : UnitCache := ⟨Keyed.insert u.name u c.units⟩

/-- Forget the unit of a name. -/
def erase (c : UnitCache) (name : String) : UnitCache := ⟨Keyed.erase name c.units⟩

/-- The names of all units. -/
def names (c : UnitCache) : List String := Keyed.keys c.units

/-- The number of units. -/
def size (c : UnitCache) : Nat := c.units.length

/-- Inserting a unit makes it the unit of its name and text. -/
@[simp] theorem unit?_insert_self (c : UnitCache) (u : LoadedUnit) :
    (c.insert u).unit? u.name u.source = some u := by
  simp [unit?, insert, Option.filter]

end UnitCache

/-! ## Metadata -/

namespace Metadata

/-- The text under a key. -/
def textField (entries : Entries) (key : String) : Except ScriptError String :=
  match (Keyed.lookup key entries).bind Datum.text? with
  | some text => .ok text
  | none => .error (.missingText key)

/-- The texts of a list of values. -/
def textItems (key : String) : List Datum → Except ScriptError (List String)
  | [] => .ok []
  | .text text :: items => do return text :: (← textItems key items)
  | d :: _ => .error (.notText key d.hostKind)

/-- The list of texts under a key. -/
def textsField (entries : Entries) (key : String) : Except ScriptError (List String) :=
  match (Keyed.lookup key entries).bind Datum.array? with
  | some items => textItems key items
  | none => .error (.missingList key)

/-- The path of the icon, if there is one. -/
def iconField (entries : Entries) : Except ScriptError (Option String) :=
  match Keyed.lookup "icon" entries with
  | none => .ok none
  | some .unit => .ok none
  | some _ => (textField entries "icon").map some

/-- Read the metadata that a unit tells. -/
def ofEntries (entries : Entries) : Except ScriptError Metadata := do
  let icon ← iconField entries
  return {
    title := ← textField entries "title"
    categories := ← textsField entries "categories"
    dependencies := ← textsField entries "dependencies"
    contributors := ← textsField entries "contributors"
    helpText := ← textField entries "help_text"
    acknowledgement := ← textField entries "acknowledgement_text"
    icon? := icon }

end Metadata

end Pipewright
