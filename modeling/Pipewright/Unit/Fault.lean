import Pipewright.Graph.Steps
import Pipewright.Unit.Names

/-! # Faults of generation
Why no unit can be generated from a pipeline, or a generated one cannot be put in its place. -/

namespace Pipewright

/-- Why no unit can be generated or put in its place. -/
inductive UnitFault where
  /-- A name cannot be used. -/
  | name (fault : NameFault)
  /-- Overall inputs or outputs are not in a row. -/
  | positions (fault : PositionFault)
  /-- There are not both inputs and outputs. -/
  | tooFewSteps (found : Nat)
  /-- Nothing feeds a slot. -/
  | missingProducer (node : SlotKey)
  /-- An operation is not registered. -/
  | unknownOperation (name : String)
  /-- There is something in the unit's place. -/
  | alreadyExists (path : String)
  /-- There is no icon to copy. -/
  | missingIcon (path : String)
  /-- Files cannot be written. -/
  | storage

/-- The word for a fault. -/
def UnitFault.kind : UnitFault → String
  | .name (.notIdentifier _) => "InvalidIdentifier"
  | .name (.reserved _) => "ReservedName"
  | .positions _ => "InvalidPositions"
  | .tooFewSteps _ => "TooFewSteps"
  | .missingProducer _ => "MissingProducer"
  | .unknownOperation _ => "UnknownOperation"
  | .alreadyExists _ => "AlreadyExists"
  | .missingIcon _ => "MissingIcon"
  | .storage => "Io"

/-- The text of a fault, if it is one of the library's own. -/
def UnitFault.message? : UnitFault → Option String
  | .name fault => some fault.message
  | .positions fault => some fault.message
  | .tooFewSteps found =>
    some ("A pipeline needs at least an input and an output step, found " ++ toString found ++
      " step(s)")
  | .missingProducer node =>
    some ("Node " ++ node.display ++ " has neither a fixed value nor a producer")
  | .unknownOperation operation => some ("Operation '" ++ operation ++ "' is not registered")
  | .alreadyExists path => some ("Refusing to overwrite existing pipeline unit " ++ path)
  | .missingIcon path => some ("Icon file not found: " ++ path)
  | .storage => none

namespace PipelineGraph

/-- The overall inputs in the order of their positions. -/
def orderedInputs (g : PipelineGraph) : Except UnitFault (List SlotKey) :=
  g.inputs.mapError .positions

/-- The overall outputs in the order of their positions. -/
def orderedOutputs (g : PipelineGraph) : Except UnitFault (List SlotKey) :=
  g.outputs.mapError .positions

end PipelineGraph

end Pipewright
