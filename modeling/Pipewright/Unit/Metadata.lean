import Pipewright.Graph.Validation
import Pipewright.Settings
import Pipewright.Unit.Piece

/-! # Metadata of units
What a host shows of a unit, and the function of the unit that tells it. -/

namespace Pipewright

open Script (Expr Function)

/-- What a host shows of a unit. -/
structure Metadata where
  /-- The title. -/
  title : String
  /-- The categories. -/
  categories : List String
  /-- What the unit depends on. -/
  dependencies : List String
  /-- Who contributed to it. -/
  contributors : List String
  /-- What the help says. -/
  helpText : String
  /-- What the acknowledgement says. -/
  acknowledgement : String
  /-- The path of the icon, seen from the directory of the unit. -/
  icon? : Option String
deriving DecidableEq, Repr

/-- What a pipeline depends on: who generates it and what its operations depend on, in ascending
order and each once. -/
def ValidatedPipeline.dependencies (p : ValidatedPipeline) (r : Registry) (s : Settings) :
    List String :=
  let operations := p.graph.keys.filterMap fun key => key.operation.bind r.operation?
  Keyed.distinct (s.generatorName :: operations.flatMap Operation.dependencies)

namespace Metadata

/-- The metadata of the unit of a pipeline. -/
def of (name : String) (p : ValidatedPipeline) (r : Registry) (s : Settings) (hasIcon : Bool) :
    Metadata where
  title := name
  categories := s.categories
  dependencies := p.dependencies r s
  contributors := s.contributors
  helpText := s.helpText
  acknowledgement := s.acknowledgement
  icon? := if hasIcon then some (s.iconPath name) else none

/-- The expression that spells a list of texts. -/
def textsExpr (texts : List String) : Expr := .items (texts.map Expr.str)

/-- The function that tells the metadata. -/
def function (m : Metadata) : Function where
  name := "module_info"
  parameters := []
  body := [.value (.object .spread
    [("title", .str m.title), ("categories", textsExpr m.categories),
      ("dependencies", textsExpr m.dependencies), ("contributors", textsExpr m.contributors),
      ("help_text", .str m.helpText), ("acknowledgement_text", .str m.acknowledgement),
      ("icon", m.icon?.elim .unit Expr.str)])]

/-- The text of the function that tells the metadata. -/
def code (m : Metadata) (tab : String) : String := m.function.text tab

end Metadata

/-- The piece of a unit that tells its metadata. -/
def metadataPiece (name : String) (p : ValidatedPipeline) (r : Registry) (s : Settings)
    (hasIcon : Bool) : Piece :=
  ⟨"", [.heading (name ++ "Module"), .function (Metadata.of name p r s hasIcon).function]⟩

end Pipewright
