import Pipewright.FileTree
import Pipewright.Host.Failure
import Pipewright.Unit.Source

/-! # Writing units
From a pipeline graph to a unit in a directory. Nothing is written unless the graph is valid, its
source can be generated, the icon is there and the unit's place is free. The source is written
before the icon is copied. -/

namespace Pipewright

/-- Where a unit has been put. -/
structure CreatedUnit where
  /-- The path of its source. -/
  sourcePath : String
  /-- The path of its icon. -/
  iconPath? : Option String
deriving DecidableEq, Repr

/-- What is asked for when a unit is to be written. -/
structure UnitOrder where
  /-- The name of the unit. -/
  name : String
  /-- The directory to put it in. -/
  directory : String
  /-- The pipeline. -/
  graph : PipelineGraph
  /-- The path of the icon to copy. -/
  icon? : Option String
  /-- The choices for its text. -/
  settings : Settings

namespace UnitOrder

/-- The path of the unit's source. -/
def sourcePath (o : UnitOrder) : String :=
  Path.join o.directory (o.name ++ "." ++ o.settings.fileExtension)

/-- The directory of the unit's icon. -/
def iconDirectory (o : UnitOrder) : String := Path.join o.directory o.settings.iconDirectory

/-- The path of the unit's icon. -/
def iconPath (o : UnitOrder) : String := Path.join o.iconDirectory (o.name ++ ".png")

/-- The source of the unit. -/
def source (o : UnitOrder) (r : Registry) : Except Failure String := do
  if Script.isIdentifier o.name then
    let p ← (o.graph.validate r).mapError fun e => Failure.of (.validation e)
    (unitSource o.name p r o.settings o.icon?.isSome).mapError fun e => Failure.of (.generation e)
  else throw (.of (.generation (.name (.notIdentifier o.name))))

/-- The source of the unit, if it can be put in its place. -/
def prepare (o : UnitOrder) (r : Registry) (t : FileTree) : Except Failure String := do
  let text ← o.source r
  match o.icon?.filter fun icon => !t.isFile icon with
  | some icon => throw (.of (.generation (.missingIcon icon)))
  | none =>
    if t.contains o.sourcePath then throw (.of (.generation (.alreadyExists o.sourcePath)))
    else return text

/-- Files could not be changed. -/
def refusal (doing path : String) : Failure :=
  (Failure.of (.generation .storage)).within (doing ++ " " ++ Path.quoted path)

/-- Put the source in its place. -/
def writeSource (o : UnitOrder) (text : String) (t : FileTree) : Except Failure Unit × FileTree :=
  let (made, t) := t.makeDirectories o.directory
  if made then
    match t.write? o.sourcePath text with
    | some t => (.ok (), t)
    | none => (.error (refusal "Failed to write" o.sourcePath), t)
  else (.error (refusal "Failed to create" o.directory), t)

/-- Put a copy of the icon in its place. -/
def copyIcon (o : UnitOrder) (icon : String) (t : FileTree) : Except Failure Unit × FileTree :=
  let (made, t) := t.makeDirectories o.iconDirectory
  match (if made then t.copy? icon o.iconPath else none) with
  | some t => (.ok (), t)
  | none => (.error (refusal "Failed to copy icon" icon), t)

/-- Put the icon in its place, if there is one. -/
def writeIcon (o : UnitOrder) (t : FileTree) : Except Failure (Option String) × FileTree :=
  match o.icon? with
  | none => (.ok none, t)
  | some icon =>
    let (outcome, t) := o.copyIcon icon t
    (outcome.map fun _ => some o.iconPath, t)

/-- Write the unit. -/
def create (o : UnitOrder) (r : Registry) (t : FileTree) : Except Failure CreatedUnit × FileTree :=
  match o.prepare r t with
  | .error f => (.error f, t)
  | .ok text =>
    match o.writeSource text t with
    | (.error f, t) => (.error f, t)
    | (.ok (), t) =>
      let (outcome, t) := o.writeIcon t
      (outcome.map fun icon => ⟨o.sourcePath, icon⟩, t)

end UnitOrder

end Pipewright
