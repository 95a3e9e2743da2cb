import Pipewright.Graph.Validation
import Pipewright.Settings
import Pipewright.Unit.Binding
import Pipewright.Unit.Piece

/-! # The function that runs a pipeline
It calls the operations of the inner steps one after another, each with what feeds its parameters,
and keeps each result in a variable of the step. When it may, it then removes the nodes among the
results, but for those that are returned, are inputs, or are referenced by one that is; this also
happens when a step has failed, and the failure is raised again afterwards. -/

namespace Pipewright

open Script (Expr Function Stmt)

/-- The variable of the progress callback. -/
def callbackName : String := "progress_callback"

/-- The variable that says whether nodes may be removed. -/
def removalName : String := "delete_intermediate_nodes"

/-- A report of a piece's start. -/
def reportStmt (pieceName : String) (piece pieces : Nat) : Stmt :=
  .run (.method (.var callbackName) "report_progress"
    [.str pieceName, .float 0, .int (Int64.ofNat piece), .int (Int64.ofNat pieces)])

/-- The statement that gives a variable a value. -/
def Script.Stmt.set (name : String) (e : Expr) : Stmt := .assign ⟨name, []⟩ .set e

/-! ## Steps -/

namespace PipelineGraph

/-- The keys of the inner steps, step by step. -/
def innerSteps (g : PipelineGraph) : List (List SlotKey) := g.groups.tail.dropLast

/-- The number of pieces that the inner steps are reported as; there is always one. -/
def pieces (g : PipelineGraph) : Nat := max g.innerSteps.length 1

/-- An argument for each parameter of an operation. -/
def arguments (g : PipelineGraph) (step : Nat) (o : Operation) :
    Except UnitFault (List (String × Expr)) :=
  o.parameters.mapM fun parameter => do
    let binding ← g.binding (.parameter step o.name parameter.1)
    return (parameter.1, binding.expr)

/-- The argument for the progress parameter of an operation, if it has one. -/
def progressArguments (g : PipelineGraph) (step : Nat) (o : Operation) : List (String × Expr) :=
  match o.progress? with
  | none => []
  | some name =>
    [(name, .method (.var callbackName) "get_sub_callback"
      [.int (Int64.ofNat (step - 1)), .int (Int64.ofNat g.pieces)])]

/-- The registered operation of a step. -/
def stepOperation (r : Registry) (keys : List SlotKey) : Except UnitFault (Nat × Operation) :=
  match keys with
  | [] => .error (.unknownOperation "None")
  | first :: _ =>
    match first.operation with
    | none => .error (.unknownOperation "None")
    | some operation =>
      match r.operation? operation with
      | none => .error (.unknownOperation operation)
      | some o => .ok (first.step, o)

/-- The statements of a step. -/
def stepStmts (g : PipelineGraph) (r : Registry) (keys : List SlotKey) :
    Except UnitFault (List Stmt) := do
  let (step, o) ← stepOperation r keys
  let arguments ← g.arguments step o
  let entries := arguments ++ g.progressArguments step o
  let function := functionVariable step o.name
  return [
    .note ("step " ++ toString step ++ " - " ++ o.name),
    reportStmt o.name (step - 1) g.pieces,
    .declare function (some (HostModule.operations.call "get" [.str o.name])),
    .set (returnVariable step o.name)
      (.method (.var function) "invoke"
        [.object (if entries.isEmpty then .inline else .spread) entries])]

/-- Blocks of statements with an empty line between each two. -/
def separateBlocks : List (List Stmt) → List Stmt
  | [] => []
  | [block] => block
  | block :: blocks => block ++ .gap :: separateBlocks blocks

/-- The statements of all inner steps. -/
def innerStmts (g : PipelineGraph) (r : Registry) : Except UnitFault (List Stmt) := do
  let blocks ← g.innerSteps.mapM (g.stepStmts r)
  return if blocks.isEmpty then [.run .unit] else separateBlocks blocks

/-- The variables that hold the results of the inner steps. -/
def resultVariables (g : PipelineGraph) : List String :=
  g.innerSteps.filterMap fun keys => do
    let first ← keys.head?
    return returnVariable first.step (← first.operation)

/-! ## Removing nodes -/

/-- The places in the result of a step at which its operation returns nodes. -/
def managedOfStep (r : Registry) (keys : List SlotKey) : Except UnitFault (List Access) := do
  let (step, o) ← stepOperation r keys
  return o.returns.nodePaths.map fun path => ⟨returnVariable step o.name, path⟩

/-- The places in the results of the inner steps at which there are nodes. -/
def managed (g : PipelineGraph) (r : Registry) : Except UnitFault (List Access) := do
  return (← g.innerSteps.mapM (managedOfStep r)).flatten

/-- The places whose nodes may be removed: those that overlap nothing that is returned. -/
def removable (managed returned : List Access) : List Access :=
  managed.filter fun m => !returned.any fun a => a.overlaps m

/-- What has to stay: what is returned, and the inputs that hold nodes. -/
def retained (g : PipelineGraph) (returned : List Access) (inputs : List SlotKey) : List Access :=
  inputs.foldl (fun found key =>
    let access := Access.whole key.slot
    let holdsNode := ((g.datatype? key).map DataType.mentionsNode).getD false
    if holdsNode && !found.contains access then found ++ [access] else found) returned

/-- Remove the node at a place, unless something that stays is it or references it. -/
def removalStmt (a : Access) : Stmt :=
  .branch
    [(.not (.call "_node_referenced_by" [a.guarded, .var "_retained"]),
      [.run (HostModule.scene.call "remove_node" [a.guarded])])] []

/-- The statements that remove nodes. -/
def cleanupStmts (g : PipelineGraph) (managed returned : List Access) (inputs : List SlotKey) :
    List Stmt :=
  let targets := removable managed returned
  if targets.isEmpty then [.note "no intermediate nodes to remove"]
  else
    let kept := (g.retained returned inputs).map Access.guarded
    .declare "_retained" (some (.items kept)) :: targets.map removalStmt

end PipelineGraph

/-! ## Functions that every unit has -/

/-- The condition that a value is of a kind. -/
def isKind (name kind : String) : Expr :=
  .binary .equal (.call "type_of" [.var name]) (.str kind)

/-- The function that follows a path of fields, and returns nothing where a container is missing. -/
def memberFunction : Function where
  name := "_member"
  parameters := ["value", "path"]
  body := [
    .forEach "key" (.var "path") [
      .branch
        [(.binary .differ (.call "type_of" [.var "value"]) (.str "map"),
          [.leaveFunction (some .unit)])] [],
      .set "value" (.index (.var "value") (.var "key"))],
    .value (.var "value")]

/-- The branch that returns from a function if a condition holds. -/
def returnIf (condition : Expr) (result : Expr) : Stmt :=
  .branch [(condition, [.leaveFunction (some result)])] []

/-- The function that tells whether a node is among some values or referenced by one of them, at any
depth of arrays and maps. -/
def referencedFunction : Function where
  name := "_node_referenced_by"
  parameters := ["node", "candidates"]
  body := [
    returnIf (isKind "node" "()") (.bool false),
    .forEach "option" (.var "candidates") [
      .declare "kind" (some (.call "type_of" [.var "option"])),
      .branch [
        (.binary .equal (.var "kind") (.str "map"),
          [returnIf (.call "_node_referenced_by"
            [.var "node", .method (.var "option") "values" []]) (.bool true)]),
        (.binary .equal (.var "kind") (.str "array"),
          [returnIf (.call "_node_referenced_by" [.var "node", .var "option"]) (.bool true)]),
        (.binary .equal (.var "kind") (.str "Node"), [
          returnIf (HostModule.scene.call "same_node" [.var "option", .var "node"]) (.bool true),
          .forEach "role" (HostModule.scene.call "reference_roles" [.var "option"]) [
            returnIf (HostModule.scene.call "has_reference"
              [.var "option", .var "role", .var "node"]) (.bool true)]])] []],
    .value (.bool false)]

/-! ## The piece -/

/-- The function that puts several outputs into a map. -/
def outputsFunction (name : String) (outputs : List SlotKey) : Function where
  name := name
  parameters := outputs.map SlotKey.slot
  body := [.value (.object .inline (outputs.map fun key => (key.slot, .var key.slot)))]

/-- The remark that tells the types of the inputs and of what is returned. -/
def signatureRemark (g : PipelineGraph) (run outputsName : String) (inputs outputs : List SlotKey) :
    String :=
  let parameter (key : SlotKey) : String :=
    (g.datatype? key).elim key.slot fun t => key.slot ++ ": " ++ t.display
  let returns : String :=
    match outputs with
    | [single] => (g.datatype? single).elim "()" DataType.display
    | _ => outputsName
  run ++ "(" ++ ", ".intercalate (inputs.map parameter) ++ ") -> " ++ returns

/-- The body of the function that runs the pipeline. -/
def runBody (g : PipelineGraph) (steps cleanup : List Stmt) (result : Expr) : List Stmt :=
  [reportStmt "" 0 g.pieces,
    .note "declared up front so cleanup can see them if a step fails"] ++
  g.resultVariables.map (fun name => .declare name (some .unit)) ++
  [.declare "_failed" (some (.bool false)),
    .declare "_failure" (some .unit),
    .gap,
    .attempt steps (some "err") [.set "_failed" (.bool true), .set "_failure" (.var "err")],
    .gap,
    -- what the completed steps have left is removed also when a later one has failed
    .branch [(.var removalName, cleanup)] [],
    .gap,
    .branch [(.var "_failed", [.raise (.var "_failure")])] [],
    .gap,
    reportStmt "" g.pieces g.pieces,
    .gap,
    .value result]

/-- The functions that run the pipeline: with the inputs only, with a progress callback, and with
the choice whether nodes are removed. -/
def runFunctions (run : String) (inputs : List String) (body : List Stmt) : List Function :=
  let again (more : List Expr) : List Stmt := [.value (.call run (inputs.map Expr.var ++ more))]
  [⟨run, inputs, again [HostModule.progress.call "noop" [], .bool true]⟩,
    ⟨run, inputs ++ [callbackName], again [.var callbackName, .bool true]⟩,
    ⟨run, inputs ++ [callbackName, removalName], body⟩]

/-- What is wrong with the name of an overall input or output, if anything is. -/
def boundaryFault? (g : PipelineGraph) : Option NameFault :=
  let first := g.groups.head?.getD []
  let last := g.groups.getLast?.getD []
  (first ++ last).findSome? fun key => nameFault? key.slot

/-- The imports that running the pipeline needs. -/
def runImports (g : PipelineGraph) : String :=
  let own : List HostModule :=
    if g.innerSteps.isEmpty then [.progress, .scene] else [.progress, .scene, .operations]
  let literals := g.nodes.filterMap fun node => node.2.fixed?
  cleanImports (importLines (own ++ literals.flatMap Value.modules))

/-- The piece of a unit that runs its pipeline. -/
def runPiece (name : String) (p : ValidatedPipeline) (r : Registry) (s : Settings) :
    Except UnitFault Piece := do
  let g := p.graph
  if g.groups.length < 2 then throw (.tooFewSteps g.groups.length)
  let inputs ← g.orderedInputs
  let outputs ← g.orderedOutputs
  match boundaryFault? g with
  | some fault => throw (.name fault)
  | none =>
    let steps ← g.innerStmts r
    let returned ← outputs.mapM g.binding
    let managed ← g.managed r
    let cleanup := g.cleanupStmts managed (returned.filterMap Binding.access?) inputs
    let outputsName := name ++ "Outputs"
    -- a single output is the result itself, several ones are the fields of a map
    let result : Expr :=
      match returned with
      | [single] => single.expr
      | _ => .call outputsName (returned.map Binding.expr)
    let functions := runFunctions s.runFunction (inputs.map SlotKey.slot)
      (runBody g steps cleanup result)
    let remark := signatureRemark g s.runFunction outputsName inputs outputs
    let constructors : List Item :=
      if 1 < returned.length then [.function (outputsFunction outputsName outputs)] else []
    let runs : List Item :=
      match functions with
      | [] => []
      | first :: others => .remarked remark first :: others.map .function
    return {
      imports := runImports g
      items := [.heading (name ++ "Logic"), .function memberFunction,
        .function referencedFunction] ++ constructors ++ runs }

end Pipewright
