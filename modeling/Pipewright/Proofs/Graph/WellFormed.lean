import Mathlib.Logic.ExistsUnique
import Pipewright.Graph.Validation

/-! # Well-formed pipeline graphs
What makes a graph a pipeline, said of the graph and the registry alone: which operations its nodes
name, which types its slots have, which slots a step has, and which connections run where. Neither
the order of the checks nor the types that validation fills in on the way play a part. -/

namespace Pipewright

/-- A slot is spelled like a return value or a part of one. -/
def SpelledReturn (slot : String) : Prop :=
  slot = returnSlot ∨ ∃ rest : String, slot = returnSlot ++ "." ++ rest

/-- The types that an operation declares for the slots of a step. -/
inductive Operation.Declares (o : Operation) : String → DataType → Prop where
  /-- The return value has the type of what is returned. -/
  | result : o.Declares returnSlot o.returns
  /-- A field of the return value has the type that its dotted path leads to through packs. -/
  | field {path : String} {t : DataType} (nonempty : path ≠ "")
    (leads : o.returns.fieldPath? path = some t) : o.Declares (returnSlot ++ "." ++ path) t
  /-- A parameter has its own type, unless its name is spelled like a return value. -/
  | parameter {slot : String} {t : DataType} (plain : ¬ SpelledReturn slot)
    (found : o.parameter? slot = some t) : o.Declares slot t

namespace PipelineGraph

/-- A key belongs to the first step or to the highest one. -/
def AtEnd (g : PipelineGraph) (key : SlotKey) : Prop :=
  key.step = 0 ∨ ∀ other ∈ g.keys, other.step ≤ key.step

instance (g : PipelineGraph) (key : SlotKey) : Decidable (g.AtEnd key) :=
  inferInstanceAs (Decidable (_ ∨ _))

/-- A node belongs to a registered operation. -/
def Belongs (r : Registry) (key : SlotKey) (o : Operation) : Prop :=
  ∃ name, key.operation = some name ∧ r.operation? name = some o

/-- The types of the nodes of a graph: those of overall inputs and outputs are given, those of the
slots of an operation are declared, outer annotations left out. -/
inductive HasType (g : PipelineGraph) (r : Registry) : SlotKey → DataType → Prop where
  /-- An overall input or output has the type that it was given. -/
  | given {key : SlotKey} {attrs : SlotAttrs} {t : DataType} (there : (key, attrs) ∈ g.nodes)
    (boundary : key.operation = none) (typed : attrs.datatype? = some t) : HasType g r key t
  /-- A slot of an operation has the type that the operation declares. -/
  | declared {key : SlotKey} {o : Operation} {t : DataType} (there : key ∈ g.keys)
    (belongs : Belongs r key o) (declares : o.Declares key.slot t) :
    HasType g r key t.unannotated

/-- The slots of a step that are not spelled like return values. -/
def wiredSlots (g : PipelineGraph) (step : Nat) : List String :=
  ((g.keysAt step).filter fun key => !key.isReturn).map SlotKey.slot

/-- What makes a graph a pipeline. -/
structure WellFormed (g : PipelineGraph) (r : Registry) : Prop where
  /-- There is a node. -/
  nonempty : g.nodes ≠ []
  /-- Nodes of the first and of the highest step name no operation. -/
  ends_bare : ∀ key ∈ g.keys, g.AtEnd key → key.operation = none
  /-- All other nodes name a registered operation. -/
  inner_registered : ∀ key ∈ g.keys, ¬ g.AtEnd key → ∃ o, Belongs r key o
  /-- What is spelled like a part of a return value is one. -/
  returns_resolve : ∀ key ∈ g.keys, ∀ o, Belongs r key o → SpelledReturn key.slot →
    ∃ t, o.Declares key.slot t
  /-- A type that was given to a slot of an operation is the declared one, but for outer
  annotations. -/
  given_types : ∀ key attrs, (key, attrs) ∈ g.nodes → ∀ o, Belongs r key o →
    ∀ t, o.Declares key.slot t → ∀ found, attrs.datatype? = some found →
      found.unannotated == t.unannotated
  /-- Overall inputs and outputs have types. -/
  boundary_typed : ∀ key attrs, (key, attrs) ∈ g.nodes → key.operation = none →
    ∃ t, attrs.datatype? = some t
  /-- The nodes of a step name one operation. -/
  one_operation : ∀ key ∈ g.keys, ∀ other ∈ g.keys, key.step = other.step →
    key.operation = other.operation
  /-- The other slots of a step are exactly the parameters of its operation. -/
  parameters_wired : ∀ key ∈ g.keys, ∀ o, Belongs r key o →
    (g.wiredSlots key.step).Perm (o.parameters.map Prod.fst)
  /-- A literal conforms to the type of its slot. -/
  literals_conform : ∀ key attrs, (key, attrs) ∈ g.nodes → ∀ v, attrs.fixed? = some v →
    ∃ t, g.HasType r key t ∧ v.conformsTo t
  /-- Below a used step every step is used. -/
  contiguous : ∀ key ∈ g.keys, ∀ step ≤ key.step, ∃ other ∈ g.keys, other.step = step
  /-- Connections go to later steps. -/
  forward : ∀ edge ∈ g.edges, edge.1.step < edge.2.step
  /-- A slot behind the first step that is not spelled like a return value has a literal or is fed
  by exactly one connection. -/
  fed : ∀ key attrs, (key, attrs) ∈ g.nodes → key.step ≠ 0 → ¬ SpelledReturn key.slot →
    attrs.fixed? = none → ∃! source, (source, key) ∈ g.edges
  /-- The slot at which a connection ends accepts the slot that it comes from. -/
  accepted : ∀ edge ∈ g.edges, ∃ source target, g.HasType r edge.1 source ∧
    g.HasType r edge.2 target ∧ target.accepts source

end PipelineGraph

end Pipewright
