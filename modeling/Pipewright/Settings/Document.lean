import Pipewright.FileTree
import Pipewright.Settings
import Pipewright.Toml.Reader
import Pipewright.Toml.Writer

/-! # Settings documents
Settings are kept in a document with one entry for each choice. Entries that are missing stand for
the standard choice, and entries that nobody knows are passed over. -/

namespace Pipewright

/-- Why settings cannot be read or written. -/
inductive SettingsFault where
  /-- There is no document that can be read. -/
  | unreadable
  /-- What is there is not a document of settings. -/
  | malformed
  /-- There is no directory for the document. -/
  | homeless
  /-- The document cannot be put in its place. -/
  | unwritable
deriving DecidableEq, Repr

/-- The text of a fault. -/
def SettingsFault.message : SettingsFault → String
  | .unreadable => "Failed to read config"
  | .malformed => "Failed to parse config"
  | .homeless => "Failed to create config directory"
  | .unwritable => "Failed to write config"

namespace Settings

/-! ## Reading -/

/-- A text of a document, or the standard one. -/
def textOf (t : Toml.Table) (key otherwise : String) : Option String :=
  match Keyed.lookup key t with
  | none => some otherwise
  | some (.text s) => some s
  | some _ => none

/-- The text that a value is, if it is one. -/
def asText? : Toml.Value → Option String
  | .text s => some s
  | _ => none

/-- The texts of a document, or the standard ones. -/
def textsOf (t : Toml.Table) (key : String) (otherwise : List String) : Option (List String) :=
  match Keyed.lookup key t with
  | none => some otherwise
  | some (.array items) => items.mapM asText?
  | some _ => none

/-- The count of a document, or the standard one. -/
def countOf (t : Toml.Table) (key : String) (otherwise : Nat) : Option Nat :=
  match Keyed.lookup key t with
  | none => some otherwise
  | some (.whole n) => if 0 ≤ n then some n.toNat else none
  | some _ => none

/-- The settings of a document. -/
def ofTable? (t : Toml.Table) : Option Settings := do
  return {
    indentWidth := ← countOf t "indent_width" standard.indentWidth
    runFunction := ← textOf t "run_function_name" standard.runFunction
    fileExtension := ← textOf t "file_extension" standard.fileExtension
    generatorName := ← textOf t "generator_name" standard.generatorName
    categories := ← textsOf t "categories" standard.categories
    contributors := ← textsOf t "contributors" standard.contributors
    helpText := ← textOf t "help_text" standard.helpText
    acknowledgement := ← textOf t "acknowledgement_text" standard.acknowledgement
    iconDirectory := ← textOf t "icon_subdirectory" standard.iconDirectory }

/-- The settings of a document's text. -/
def parse (text : String) : Except SettingsFault Settings :=
  match (Toml.parse? text).bind ofTable? with
  | some s => .ok s
  | none => .error .malformed

/-- The settings of a document that may be missing. -/
def load (document : Option String) : Except SettingsFault Settings :=
  match document with
  | some text => parse text
  | none => .error .unreadable

/-- The settings of a document, or the standard ones if there are none in it. -/
def loadOrStandard (document : Option String) : Settings :=
  match load document with
  | .ok s => s
  | .error _ => standard

/-! ## Writing -/

/-- The text of the document of settings. -/
def toText (s : Settings) : String :=
  Toml.writeEntry "indent_width" (toString s.indentWidth) ++
    Toml.writeEntry "run_function_name" (Toml.writeText s.runFunction) ++
    Toml.writeEntry "file_extension" (Toml.writeText s.fileExtension) ++
    Toml.writeEntry "generator_name" (Toml.writeText s.generatorName) ++
    Toml.writeEntry "categories" (Toml.writeTexts s.categories) ++
    Toml.writeEntry "contributors" (Toml.writeTexts s.contributors) ++
    Toml.writeEntry "help_text" (Toml.writeText s.helpText) ++
    Toml.writeEntry "acknowledgement_text" (Toml.writeText s.acknowledgement) ++
    Toml.writeEntry "icon_subdirectory" (Toml.writeText s.iconDirectory)

/-- Put the document of settings in its place, and make the directories on the way. -/
def save (s : Settings) (path : String) (t : FileTree) : Except SettingsFault Unit × FileTree :=
  let (made, t) := t.makeDirectories (Path.parent path)
  if made then
    match t.write? path s.toText with
    | some t => (.ok (), t)
    | none => (.error .unwritable, t)
  else (.error .homeless, t)

end Settings

end Pipewright
