import Pipewright.Unit.Metadata
import Pipewright.Unit.Widget

/-! # The source of a unit
The text of the whole program that is generated from a pipeline: a title, one block of imports, and
the pieces of the unit one after another. -/

namespace Pipewright

/-- The pieces of a unit. -/
def unitPieces (name : String) (p : ValidatedPipeline) (r : Registry) (s : Settings)
    (hasIcon : Bool) : Except UnitFault (List Piece) := do
  if Script.isIdentifier name then
    let parameters ← parameterPiece name p
    let run ← runPiece name p r s
    let widget ← widgetPiece name p s
    return [metadataPiece name p r s hasIcon, parameters, run, widget]
  else throw (.name (.notIdentifier name))

/-- The text of a unit that is put together from pieces. -/
def assemble (name : String) (s : Settings) (pieces : List Piece) : String :=
  "// " ++ name ++ "." ++ s.fileExtension ++ "\n// Generated by " ++ s.generatorName ++
    ". Edit the pipeline, not this file.\n\n" ++
    cleanImports (Text.joinLines (pieces.map Piece.imports)) ++ "\n\n" ++
    "\n\n".intercalate (pieces.map fun p => p.body s.tab) ++ "\n"

/-- The source of the unit of a pipeline. -/
def unitSource (name : String) (p : ValidatedPipeline) (r : Registry) (s : Settings)
    (hasIcon : Bool) : Except UnitFault String :=
  (unitPieces name p r s hasIcon).map (assemble name s)

end Pipewright
