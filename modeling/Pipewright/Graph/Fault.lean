import Pipewright.DataType.Display
import Pipewright.Graph.Key

/-! # Faults of pipeline graphs
What can be wrong with a pipeline graph, the text that is shown for it, and the nodes to point
at. -/

namespace Pipewright

/-- A list of numbers between brackets. -/
def showNats (ns : List Nat) : String := "[" ++ ", ".intercalate (ns.map toString) ++ "]"

/-- What is wrong with a pipeline graph. -/
inductive GraphFault where
  /-- There are no nodes. -/
  | emptyGraph
  /-- An overall input or output names an operation. -/
  | stepNaming (node : SlotKey)
  /-- A node between the first and the last step names no registered operation. -/
  | unknownOperation (node : SlotKey)
  /-- A node was given another type than its operation declares. -/
  | typeMismatch (node : SlotKey) (expected found : DataType)
  /-- An operation does not return a field. -/
  | unknownSlot (node : SlotKey)
  /-- An overall input or output has no type. -/
  | missingDatatype (node : SlotKey)
  /-- A step has slots of two operations. -/
  | mixedStep (step : Nat) (first other : Option String)
  /-- A step has other parameters than its operation. -/
  | incompleteStep (step : Nat) (operation : String) (expected found : List String)
  /-- A literal does not fit its slot. -/
  | fixedValueType (node : SlotKey) (value : Value) (expected : DataType)
  /-- A step has no nodes, though a later one has. -/
  | skippedStep (found : List Nat)
  /-- A connection does not go forward. -/
  | backwardEdge (source target : SlotKey)
  /-- A slot is not fed by exactly one connection. -/
  | missingConnection (node : SlotKey) (found : Nat)
  /-- A connection ends at a slot that does not accept its source. -/
  | edgeTypeMismatch (source target : SlotKey) (sourceType targetType : DataType)

namespace GraphFault

/-- The word for a fault. -/
def kind : GraphFault → String
  | .emptyGraph => "EmptyGraph"
  | .stepNaming _ => "StepNaming"
  | .unknownOperation _ => "UnknownOperation"
  | .typeMismatch _ _ _ => "TypeMismatch"
  | .unknownSlot _ => "UnknownSlot"
  | .missingDatatype _ => "MissingDatatype"
  | .mixedStep _ _ _ => "MixedStep"
  | .incompleteStep _ _ _ _ => "IncompleteStep"
  | .fixedValueType _ _ _ => "FixedValueType"
  | .skippedStep _ => "SkippedStep"
  | .backwardEdge _ _ => "BackwardEdge"
  | .missingConnection _ _ => "MissingConnection"
  | .edgeTypeMismatch _ _ _ _ => "EdgeTypeMismatch"

/-- The text of a fault. -/
def message : GraphFault → String
  | .emptyGraph => "Pipeline graph has no nodes"
  | .stepNaming node =>
    "Node " ++ node.display ++ " is at an input/output step and must not name an operation"
  | .unknownOperation node =>
    "Node " ++ node.display ++ " names an operation that is not registered"
  | .typeMismatch node expected found =>
    "Node " ++ node.display ++ " has datatype " ++ found.display ++
      " but its operation declares " ++ expected.display
  | .unknownSlot node =>
    "Node " ++ node.display ++ " names a return field the operation does not produce"
  | .missingDatatype node => "Input/output node " ++ node.display ++ " has no datatype"
  | .mixedStep step first other =>
    "Step " ++ toString step ++ " mixes operations '" ++ first.getD "None" ++ "' and '" ++
      other.getD "None" ++ "'"
  | .incompleteStep step operation expected found =>
    "Step " ++ toString step ++ " ('" ++ operation ++ "') has parameter slots " ++
      Text.quotedList found ++ " but the operation declares " ++ Text.quotedList expected
  | .fixedValueType node value expected =>
    "Fixed value " ++ value.display ++ " on node " ++ node.display ++
      " does not match datatype " ++ expected.display
  | .skippedStep found => "Steps must be contiguous from 0, found steps " ++ showNats found
  | .backwardEdge source target =>
    "Edge " ++ source.display ++ " -> " ++ target.display ++ " does not go forward in step order"
  | .missingConnection node found =>
    "Node " ++ node.display ++ " needs exactly one inbound connection, found " ++ toString found
  | .edgeTypeMismatch source target sourceType targetType =>
    "Edge " ++ source.display ++ " -> " ++ target.display ++ " connects " ++
      sourceType.display ++ " to " ++ targetType.display

/-- The nodes to point at. -/
def offendingNodes : GraphFault → List SlotKey
  | .stepNaming node => [node]
  | .unknownOperation node => [node]
  | .typeMismatch node _ _ => [node]
  | .unknownSlot node => [node]
  | .missingDatatype node => [node]
  | .fixedValueType node _ _ => [node]
  | .missingConnection node _ => [node]
  | .backwardEdge source target => [source, target]
  | .edgeTypeMismatch source target _ _ => [source, target]
  | _ => []

/-- Whether the fault is that types do not fit. -/
def isTypeMismatch : GraphFault → Bool
  | .typeMismatch _ _ _ => true
  | .fixedValueType _ _ _ => true
  | .edgeTypeMismatch _ _ _ _ => true
  | _ => false

end GraphFault

end Pipewright
