import Pipewright.Unit.ParameterNode
import Pipewright.Unit.Run

/-! # The widget of a unit
The functions that an interface calls: one makes a fresh parameter node, another runs the pipeline
on what a parameter node holds. Nodes among the results are copied into the nodes that the outputs
hold, or stay there if an output holds none. When everything is copied, or copying has failed, the
nodes that nothing holds are removed. -/

namespace Pipewright

open Script (Expr Function Stmt)

/-- How one part of the results reaches the outputs. -/
structure OutputCopy where
  /-- Where it is found. -/
  source : Access
  /-- Where it belongs. -/
  target : Access
  /-- It is a node, whose content is copied. -/
  isNode : Bool
deriving DecidableEq, Repr

namespace OutputCopy

/-- The statement that makes the copy. -/
def stmt (c : OutputCopy) : Stmt :=
  .assign c.target.place .set
    (if c.isNode then .call "_copy_node_output" [c.source.expr, c.target.expr] else c.source.expr)

end OutputCopy

mutual

/-- The copies for a result of a type: one for each node and, where there are nodes, for each other
field; else one for the whole. -/
def outputCopies (source target : Access) : DataType → List OutputCopy
  | .annotated inner _ => outputCopies source target inner
  | .node _ => [⟨source, target, true⟩]
  | .pack name fields =>
    if (DataType.pack name fields).nodePaths.isEmpty then [⟨source, target, false⟩]
    else outputCopiesOfFields source target fields
  | _ => [⟨source, target, false⟩]

/-- The copies for the fields of a pack. -/
def outputCopiesOfFields (source target : Access) : List (String × DataType) → List OutputCopy
  | [] => []
  | (name, t) :: fields =>
    outputCopies (source.field name) (target.field name) t ++
      outputCopiesOfFields source target fields

end

/-- The function that copies a node into the one that an output holds, and returns the node that
belongs there. -/
def copyFunction : Function where
  name := "_copy_node_output"
  parameters := ["src", "dest"]
  body := [
    returnIf (isKind "src" "()") (.var "dest"),
    returnIf (isKind "dest" "()") (.var "src"),
    .branch
      [(.not (HostModule.scene.call "same_node" [.var "src", .var "dest"]),
        [.run (HostModule.scene.call "copy_node" [.var "src", .var "dest"])])] [],
    .value (.var "dest")]

/-- The function that tells whether a node is among some values. -/
def holdsFunction : Function where
  name := "_holds_node"
  parameters := ["nodes", "node"]
  body := [
    .forEach "n" (.var "nodes") [
      returnIf (.binary .both (isKind "n" "Node")
        (HostModule.scene.call "same_node" [.var "n", .var "node"])) (.bool true)],
    .value (.bool false)]

/-- The function that removes the nodes among some values, but for those to keep. -/
def releaseFunction : Function where
  name := "_release_nodes"
  parameters := ["sources", "keep"]
  body := [
    .declare "released" (some (.items [])),
    .forEach "src" (.var "sources") [
      .branch
        [(.binary .either
            (.binary .either
              (.binary .differ (.call "type_of" [.var "src"]) (.str "Node"))
              (.call "_holds_node" [.var "keep", .var "src"]))
            (.call "_holds_node" [.var "released", .var "src"]),
          [.nextRound])] [],
      .run (HostModule.scene.call "remove_node" [.var "src"]),
      .run (.method (.var "released") "push" [.var "src"])]]

/-- A part of the inputs or outputs of a parameter node. -/
def slotAccess (base : String) (key : SlotKey) : Access := ⟨base, [key.slot]⟩

/-- The places of nodes among the inputs. -/
def keptAccesses (g : PipelineGraph) (inputs : List SlotKey) : List Access :=
  inputs.flatMap fun key =>
    match g.datatype? key with
    | none => []
    | some t => t.nodePaths.map fun path => ⟨"inputs", key.slot :: path⟩

/-- The copies for all outputs. A single output is the whole result, several ones are its
fields. -/
def allCopies (g : PipelineGraph) (outputs : List SlotKey) : List OutputCopy :=
  outputs.flatMap fun key =>
    let source : Access :=
      match outputs with
      | [_] => .whole "output_value"
      | _ => slotAccess "output_value" key
    outputCopies source (slotAccess "outputs" key) (g.slotType key)

/-- The statements that make the copies and release the nodes that nothing holds afterwards. -/
def copyStmts (copies : List OutputCopy) : List Stmt :=
  let nodes := copies.filter OutputCopy.isNode
  if nodes.isEmpty then copies.map OutputCopy.stmt
  else
    let release : Stmt := .run (.call "_release_nodes" [.var "_sources", .var "_keep"])
    [.declare "_sources" (some (.items (nodes.map fun c => c.source.expr))),
      .attempt (copies.map OutputCopy.stmt) (some "err") [release, .raise (.var "err")],
      -- a node that is now held by an output stays, whoever made it
      .assign ⟨"_keep", []⟩ .add (.items (nodes.map fun c => c.target.expr)),
      release]

/-- The functions that run the pipeline on a parameter node. -/
def widgetFunctions (g : PipelineGraph) (run : String) (inputs outputs : List SlotKey) :
    List Function :=
  let node := "parameter_node"
  let arguments := inputs.map (fun key => (slotAccess "inputs" key).expr) ++ [.var callbackName]
  let body : List Stmt :=
    [.declare "inputs" (some (.field (.var node) "inputs")),
      .declare "outputs" (some (.field (.var node) "outputs")),
      .declare "_keep" (some (.items ((keptAccesses g inputs).map Access.expr))),
      .declare "output_value" (some (.call run arguments))] ++
    copyStmts (allCopies g outputs) ++
    [.assign ⟨node, [.field "outputs"]⟩ .set (.var "outputs"), .value (.var node)]
  [⟨"on_run", [node],
      [.value (.call "on_run" [.var node, HostModule.progress.call "noop" []])]⟩,
    ⟨"on_run", [node, callbackName], body⟩]

/-- The function that makes a fresh parameter node. -/
def setupFunction (name : String) : Function where
  name := "setup"
  parameters := []
  body := [.value (HostModule.types.call "instantiate" [.call (name ++ "ParameterNode") []])]

/-- The piece of a unit that an interface calls. -/
def widgetPiece (name : String) (p : ValidatedPipeline) (s : Settings) :
    Except UnitFault Piece := do
  let g := p.graph
  let inputs ← g.orderedInputs
  let outputs ← g.orderedOutputs
  let functions := [copyFunction, holdsFunction, releaseFunction, setupFunction name] ++
    widgetFunctions g s.runFunction inputs outputs
  return {
    imports := importLines [.progress, .scene]
    items := .heading (name ++ "Widget") :: functions.map .function }

end Pipewright
