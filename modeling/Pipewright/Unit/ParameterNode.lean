import Pipewright.Graph.Validation
import Pipewright.Unit.Binding
import Pipewright.Unit.Piece

/-! # Parameter nodes
The packs of a unit's inputs and outputs, one field for each overall input or output in the order of
their positions, and the pack of both, which a host turns into fresh values. -/

namespace Pipewright

open Script (Expr Function)

/-- The function that returns a pack. -/
def packFunction (name : String) (fields : List Expr) : Function where
  name := name
  parameters := []
  body := [.value (HostModule.types.call "pack"
    [.str name, .array (if fields.isEmpty then .inline else .spread) fields])]

namespace PipelineGraph

/-- The type of a node; a node without one holds nothing. -/
def slotType (g : PipelineGraph) (key : SlotKey) : DataType := (g.datatype? key).getD .unit

/-- The fields for some nodes. -/
def packFields (g : PipelineGraph) (keys : List SlotKey) : List Expr :=
  keys.map fun key => .items [.str key.slot, (g.slotType key).spelling]

end PipelineGraph

/-- The piece of a unit that declares its parameter node. -/
def parameterPiece (name : String) (p : ValidatedPipeline) : Except UnitFault Piece := do
  let g := p.graph
  let inputs ← g.orderedInputs
  let outputs ← g.orderedOutputs
  let inputsName := name ++ "Inputs"
  let outputsName := name ++ "Outputs"
  let nodeName := name ++ "ParameterNode"
  let both : List Expr :=
    [.items [.str "inputs", .call inputsName []], .items [.str "outputs", .call outputsName []]]
  return {
    imports := cleanImports (g.importsOf (inputs ++ outputs))
    items := [
      .heading inputsName, .function (packFunction inputsName (g.packFields inputs)),
      .heading outputsName, .function (packFunction outputsName (g.packFields outputs)),
      .heading nodeName, .function (packFunction nodeName both)] }

end Pipewright
