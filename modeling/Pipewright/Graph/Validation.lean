import Pipewright.DataType.Acceptance
import Pipewright.Graph.Fault
import Pipewright.Graph.Steps
import Pipewright.Registry

/-! # Validating pipeline graphs
The checks that a pipeline graph has to pass before programs are made of it, in the order in which
they are made; the first fault found is reported. In between, the types of all slots of operations
are filled in from the registry, outer annotations left out. -/

namespace Pipewright

/-- A pipeline graph that has passed all checks, with the types of all its nodes filled in. -/
structure ValidatedPipeline where
  /-- The graph. -/
  graph : PipelineGraph

namespace PipelineGraph

/-- The highest step. -/
def lastStep (g : PipelineGraph) : Nat := g.numSteps - 1

/-! ## Operations of steps -/

/-- The first and the last step name no operation, every other step names registered ones. -/
def namingFault? (g : PipelineGraph) (r : Registry) (key : SlotKey) : Option GraphFault :=
  let atEnd := key.step == 0 || key.step == g.lastStep
  match key.operation with
  | none => if atEnd then none else some (.unknownOperation key)
  | some operation =>
    if atEnd then some (.stepNaming key)
    else if r.contains operation then none
    else some (.unknownOperation key)

/-! ## Types from the registry -/

/-- The type that the registry declares for a slot of an operation, without outer annotations. A
slot that spells a field of the return value must be one; for any other slot that is no parameter
there is no type. -/
def declaredType (r : Registry) (key : SlotKey) : Except GraphFault (Option DataType) :=
  match key.operation.bind r.operation? with
  | none => .error (.unknownOperation key)
  | some o =>
    if key.slot = returnSlot then .ok (some o.returns.unannotated)
    else if key.isReturn then
      match key.returnField?.bind o.returns.fieldPath? with
      | some t => .ok (some t.unannotated)
      | none => .error (.unknownSlot key)
    else .ok ((o.parameter? key.slot).map DataType.unannotated)

/-- Fill in the declared type of a node. A type that it has already must be the same, but for outer
annotations. -/
def fillNode (r : Registry) (node : SlotKey × SlotAttrs) :
    Except GraphFault (SlotKey × SlotAttrs) :=
  let (key, attrs) := node
  if key.isBoundary then .ok node
  else
    match declaredType r key with
    | .error fault => .error fault
    | .ok none => .ok node
    | .ok (some expected) =>
      match attrs.datatype? with
      | none => .ok (key, { attrs with datatype? := some expected })
      | some found =>
        if found.unannotated == expected then
          .ok (key, { attrs with datatype? := some expected })
        else .error (.typeMismatch key expected found)

/-- Fill in the declared types of all nodes. -/
def fillTypes (g : PipelineGraph) (r : Registry) : Except GraphFault PipelineGraph :=
  (g.nodes.mapM (fillNode r)).map fun nodes => { g with nodes := nodes }

/-- An overall input or output has a type. -/
def untypedFault? (node : SlotKey × SlotAttrs) : Option GraphFault :=
  if node.1.isBoundary && node.2.datatype?.isNone then some (.missingDatatype node.1) else none

/-! ## Complete steps -/

/-- Texts in ascending order, repeats kept. -/
def sortTexts (texts : List String) : List String := texts.mergeSort fun a b => !decide (b < a)

/-- The keys of a step name one operation, and its parameters are exactly their slots. -/
def stepFault? (r : Registry) (keys : List SlotKey) : Option GraphFault :=
  match keys with
  | [] => none
  | first :: _ =>
    match keys.find? fun key => key.operation != first.operation with
    | some other => some (.mixedStep first.step first.operation other.operation)
    | none =>
      match first.operation with
      | none => none
      | some operation =>
        match r.operation? operation with
        | none => some (.unknownOperation first)
        | some o =>
          let found := sortTexts ((splitReturns keys).1.map SlotKey.slot)
          let expected := sortTexts (o.parameters.map Prod.fst)
          if found = expected then none
          else some (.incompleteStep first.step operation expected found)

/-! ## Literals, steps and connections -/

/-- A literal fits its slot. -/
def literalFault? (node : SlotKey × SlotAttrs) : Option GraphFault :=
  match node.2.fixed?, node.2.datatype? with
  | some v, some t => if v.conformsTo t then none else some (.fixedValueType node.1 v t)
  | _, _ => none

/-- The steps that have nodes, ascending. -/
def usedSteps (g : PipelineGraph) : List Nat := g.groups.filterMap fun keys =>
  keys.head?.map SlotKey.step

/-- No step is skipped. -/
def skippedFault? (g : PipelineGraph) : Option GraphFault :=
  if g.usedSteps = List.range g.usedSteps.length then none else some (.skippedStep g.usedSteps)

/-- A connection goes to a later step. -/
def directionFault? (edge : SlotKey × SlotKey) : Option GraphFault :=
  if edge.1.step < edge.2.step then none else some (.backwardEdge edge.1 edge.2)

/-- A slot that takes a value has a literal or is fed by exactly one connection. -/
def producerFault? (g : PipelineGraph) (node : SlotKey × SlotAttrs) : Option GraphFault :=
  if node.1.step == 0 || node.1.isReturn || node.2.fixed?.isSome || g.inDegree node.1 == 1 then none
  else some (.missingConnection node.1 (g.inDegree node.1))

/-- The slot at which a connection ends accepts its source. -/
def acceptanceFault? (g : PipelineGraph) (edge : SlotKey × SlotKey) : Option GraphFault :=
  match g.datatype? edge.1, g.datatype? edge.2 with
  | some source, some target =>
    if target.accepts source then none
    else some (.edgeTypeMismatch edge.1 edge.2 source target)
  | _, _ => none

/-! ## All checks -/

/-- The first fault of the structure and the names of a graph. -/
def outlineFault? (g : PipelineGraph) (r : Registry) : Option GraphFault :=
  if g.nodes.isEmpty then some .emptyGraph else g.keys.findSome? (g.namingFault? r)

/-- The first fault of a graph whose types are filled in. -/
def filledFault? (g : PipelineGraph) (r : Registry) : Option GraphFault :=
  (g.nodes.findSome? untypedFault?).or <|
    (g.groups.findSome? (stepFault? r)).or <|
    (g.nodes.findSome? literalFault?).or <|
    g.skippedFault?.or <|
    (g.edges.findSome? directionFault?).or <|
    (g.nodes.findSome? g.producerFault?).or <|
    g.edges.findSome? g.acceptanceFault?

/-- Validate a graph. -/
def validate (g : PipelineGraph) (r : Registry) : Except GraphFault ValidatedPipeline :=
  match g.outlineFault? r with
  | some fault => .error fault
  | none =>
    match g.fillTypes r with
    | .error fault => .error fault
    | .ok filled =>
      match filled.filledFault? r with
      | some fault => .error fault
      | none => .ok ⟨filled⟩

end PipelineGraph

end Pipewright
