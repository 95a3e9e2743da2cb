import Pipewright.Path

/-! # Settings
What the author of a unit can choose about its text: the indentation, the name of the function that
runs it, and what its metadata say. -/

namespace Pipewright

/-- The choices for generated units. -/
structure Settings where
  /-- How many blanks make up one level of indentation. -/
  indentWidth : Nat
  /-- The name of the function that runs a unit. -/
  runFunction : String
  /-- The extension of written units, without the dot. -/
  fileExtension : String
  /-- Who generates the units. -/
  generatorName : String
  /-- The categories of every unit. -/
  categories : List String
  /-- Who contributed to every unit. -/
  contributors : List String
  /-- What the help says. -/
  helpText : String
  /-- What the acknowledgement says. -/
  acknowledgement : String
  /-- Where icons are put, seen from the directory of the unit. -/
  iconDirectory : String
deriving DecidableEq, Repr

namespace Settings

/-- The settings of whoever chooses nothing. -/
def standard : Settings where
  indentWidth := 4
  runFunction := "run"
  fileExtension := "rhai"
  generatorName := "PipelineCreator"
  categories := ["PipelineModules"]
  contributors := ["PipelineCreator"]
  helpText := "This module was created by the pipeline creator."
  acknowledgement := "This module was generated automatically from a pipeline graph."
  iconDirectory := "Resources/Icons"

/-- One level of indentation. -/
def tab (s : Settings) : String := String.ofList (List.replicate s.indentWidth ' ')

/-- The path of a unit's icon, seen from the directory of the unit. -/
def iconPath (s : Settings) (unit : String) : String :=
  "/".intercalate (Path.parts s.iconDirectory ++ [unit ++ ".png"])

end Settings

end Pipewright
