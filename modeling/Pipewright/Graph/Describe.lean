import Pipewright.DataType.Display
import Pipewright.Graph.Steps

/-! # Listing a pipeline graph
A readable listing of the nodes, step by step, and of the connections. -/

namespace Pipewright

namespace SlotAttrs

/-- The attributes that are there, each behind a blank. -/
def describe (attrs : SlotAttrs) : String :=
  attrs.datatype?.elim "" (fun t => " datatype=" ++ t.display) ++
    attrs.fixed?.elim "" (fun v => " fixed_value=" ++ v.display) ++
    attrs.position?.elim "" (fun n => " position=" ++ toString n)

end SlotAttrs

namespace PipelineGraph

/-- A connection in a listing. -/
def describeEdge (edge : SlotKey × SlotKey) : String :=
  edge.1.display ++ " -> " ++ edge.2.display

/-- A node in a listing. -/
def describeNode (g : PipelineGraph) (key : SlotKey) : String :=
  key.display ++ ((g.attrs? key).getD .empty).describe

/-- The keys in the order of the listing: step by step, parameters before return values. -/
def listedKeys (g : PipelineGraph) : List SlotKey :=
  g.groups.flatMap fun keys => let (parameters, returns) := splitReturns keys; parameters ++ returns

/-- The listing of a graph. -/
def describe (g : PipelineGraph) : String :=
  let line (text : String) : String := "  " ++ text ++ "\n"
  "Nodes:\n" ++ String.join (g.listedKeys.map fun key => line (g.describeNode key)) ++
    "Edges:\n" ++ String.join (g.edges.map fun edge => line (describeEdge edge))

end PipelineGraph

end Pipewright
