import Pipewright.Proofs.Graph.WellFormed

/-! # What the checks of validation have against a graph
Each check of validation is about the nodes, the steps or the connections of a graph, or about the
graph as a whole. Here it is said which of them a check has something against, and what fault tells
it, without regard to the other checks and to how they are made. A fault is reported of the first
check that has anything against the graph, and of the first node, step or connection that it has
something against. -/

namespace Pipewright

/-- The checks of validation, in their order. -/
inductive Check where
  /-- There are nodes. -/
  | nodes
  /-- The ends name no operation, and everything in between a registered one. -/
  | names
  /-- Slots of operations have a declared type, with which a given one agrees. -/
  | slotTypes
  /-- Overall inputs and outputs have a type. -/
  | boundaryTypes
  /-- Each step has one operation, and exactly its parameters. -/
  | steps
  /-- Literals conform to the types of their slots. -/
  | literals
  /-- No step is left out. -/
  | contiguity
  /-- Connections go to later steps. -/
  | direction
  /-- Slots that take a value are fed by one connection. -/
  | producers
  /-- Connections end where their sources are accepted. -/
  | edgeTypes
deriving DecidableEq

/-- How many checks are made before one. -/
def Check.rank : Check → Nat
  | .nodes => 0
  | .names => 1
  | .slotTypes => 2
  | .boundaryTypes => 3
  | .steps => 4
  | .literals => 5
  | .contiguity => 6
  | .direction => 7
  | .producers => 8
  | .edgeTypes => 9

/-- Checks are told by their rank. -/
theorem Check.rank_inj {c c' : Check} (h : c.rank = c'.rank) : c = c' := by
  cases c <;> cases c' <;> first | rfl | cases h

/-- What a check has something against. -/
inductive Culprit where
  /-- The graph as a whole. -/
  | graph
  /-- A node. -/
  | node (key : SlotKey)
  /-- A step. -/
  | step (n : Nat)
  /-- A connection. -/
  | edge (edge : SlotKey × SlotKey)

/-- The nodes that are pointed at: a node itself, or both ends of a connection. -/
def Culprit.nodes : Culprit → List SlotKey
  | .graph => []
  | .node key => [key]
  | .step _ => []
  | .edge (source, target) => [source, target]

namespace PipelineGraph

variable {g : PipelineGraph} {r : Registry}

/-- Nodes come before others in the order of their keys, steps in that of their numbers, and
connections in the order in which they were drawn. -/
inductive Precedes (g : PipelineGraph) : Culprit → Culprit → Prop where
  /-- A node has the lesser key. -/
  | node {key other : SlotKey} (lesser : key < other) : Precedes g (.node key) (.node other)
  /-- A step has the lesser number. -/
  | step {n m : Nat} (lesser : n < m) : Precedes g (.step n) (.step m)
  /-- A connection was drawn earlier. -/
  | edge {edge other : SlotKey × SlotKey} (earlier : [edge, other].Sublist g.edges) :
    Precedes g (.edge edge) (.edge other)

/-- What a check has against a part of a graph, and the fault that tells it. -/
inductive Violates (g : PipelineGraph) (r : Registry) : Check → Culprit → GraphFault → Prop where
  /-- There is no node. -/
  | emptyGraph (none : g.nodes = []) : Violates g r .nodes .graph .emptyGraph
  /-- A node of the first or the last step names an operation. -/
  | stepNaming {key : SlotKey} (there : key ∈ g.keys) (atEnd : g.AtEnd key)
    (bound : key.operation ≠ none) : Violates g r .names (.node key) (.stepNaming key)
  /-- A node in between names no registered operation. -/
  | unknownOperation {key : SlotKey} (there : key ∈ g.keys) (inner : ¬ g.AtEnd key)
    (unknown : ∀ o, ¬ Belongs r key o) : Violates g r .names (.node key) (.unknownOperation key)
  /-- A slot is spelled like a part of a return value, but there is no such part. -/
  | unknownSlot {key : SlotKey} {o : Operation} (there : key ∈ g.keys) (belongs : Belongs r key o)
    (spelled : SpelledReturn key.slot) (undeclared : ∀ t, ¬ o.Declares key.slot t) :
    Violates g r .slotTypes (.node key) (.unknownSlot key)
  /-- A slot was given another type than its operation declares, but for outer annotations. -/
  | typeMismatch {key : SlotKey} {attrs : SlotAttrs} {o : Operation} {t found : DataType}
    (there : (key, attrs) ∈ g.nodes) (belongs : Belongs r key o) (declares : o.Declares key.slot t)
    (given : attrs.datatype? = some found)
    (differs : (found.unannotated == t.unannotated) = false) :
    Violates g r .slotTypes (.node key) (.typeMismatch key t.unannotated found)
  /-- An overall input or output has no type. -/
  | missingDatatype {key : SlotKey} {attrs : SlotAttrs} (there : (key, attrs) ∈ g.nodes)
    (boundary : key.operation = none) (untyped : attrs.datatype? = none) :
    Violates g r .boundaryTypes (.node key) (.missingDatatype key)
  /-- A node of a step names another operation than the first one of that step; it is the first to do
  so. -/
  | mixedStep {first other : SlotKey} (there : first ∈ g.keysAt first.step)
    (least : ∀ key ∈ g.keysAt first.step, key = first ∨ first < key)
    (there' : other ∈ g.keysAt first.step) (differs : other.operation ≠ first.operation)
    (least' : ∀ key ∈ g.keysAt first.step, key.operation ≠ first.operation →
      key = other ∨ other < key) :
    Violates g r .steps (.step first.step) (.mixedStep first.step first.operation other.operation)
  /-- The nodes of a step name one operation, but its parameters are not exactly their slots. -/
  | incompleteStep {key : SlotKey} {name : String} {o : Operation} (there : key ∈ g.keys)
    (alone : ∀ other ∈ g.keysAt key.step, other.operation = some name)
    (registered : r.operation? name = some o)
    (incomplete : ¬ (g.wiredSlots key.step).Perm (o.parameters.map Prod.fst)) :
    Violates g r .steps (.step key.step) (.incompleteStep key.step name
      (sortTexts (o.parameters.map Prod.fst)) (sortTexts (g.wiredSlots key.step)))
  /-- A literal does not conform to the type of its slot. -/
  | fixedValueType {key : SlotKey} {attrs : SlotAttrs} {v : Value} {t : DataType}
    (there : (key, attrs) ∈ g.nodes) (fixed : attrs.fixed? = some v) (typed : g.HasType r key t)
    (unfit : v.conformsTo t = false) :
    Violates g r .literals (.node key) (.fixedValueType key v t)
  /-- A step is not used, though a later one is; the steps that are used are told in their order. -/
  | skippedStep {key : SlotKey} {step : Nat} {found : List Nat} (there : key ∈ g.keys)
    (below : step < key.step) (unused : ∀ other ∈ g.keys, other.step ≠ step)
    (ascending : found.Pairwise (· < ·)) (used : ∀ n, n ∈ found ↔ ∃ other ∈ g.keys, other.step = n) :
    Violates g r .contiguity .graph (.skippedStep found)
  /-- A connection does not go to a later step. -/
  | backwardEdge {edge : SlotKey × SlotKey} (drawn : edge ∈ g.edges)
    (backward : ¬ edge.1.step < edge.2.step) :
    Violates g r .direction (.edge edge) (.backwardEdge edge.1 edge.2)
  /-- A slot that takes a value has no literal, and not exactly one connection ends there. -/
  | missingConnection {key : SlotKey} {attrs : SlotAttrs} (there : (key, attrs) ∈ g.nodes)
    (later : key.step ≠ 0) (plain : ¬ SpelledReturn key.slot) (unfixed : attrs.fixed? = none)
    (unfed : g.inDegree key ≠ 1) :
    Violates g r .producers (.node key) (.missingConnection key (g.inDegree key))
  /-- The slot at which a connection ends does not accept the one that it comes from. -/
  | edgeTypeMismatch {edge : SlotKey × SlotKey} {source target : DataType} (drawn : edge ∈ g.edges)
    (typed : g.HasType r edge.1 source) (typed' : g.HasType r edge.2 target)
    (refused : target.accepts source = false) :
    Violates g r .edgeTypes (.edge edge) (.edgeTypeMismatch edge.1 edge.2 source target)

/-- A fault points at what the check has something against. -/
theorem Violates.offendingNodes {check : Check} {culprit : Culprit} {fault : GraphFault}
    (h : Violates g r check culprit fault) : fault.offendingNodes = culprit.nodes := by
  cases h <;> rfl

/-- In a graph whose connections run between its nodes a check has something against nothing else. -/
theorem Violates.mem_keys {check : Check} {culprit : Culprit} {fault : GraphFault}
    (h : Violates g r check culprit fault)
    (ends : ∀ edge ∈ g.edges, edge.1 ∈ g.keys ∧ edge.2 ∈ g.keys) :
    ∀ key ∈ culprit.nodes, key ∈ g.keys := by
  have node {key : SlotKey} (there : key ∈ g.keys) : ∀ other ∈ [key], other ∈ g.keys := by
    simpa using there
  have edge {edge : SlotKey × SlotKey} (drawn : edge ∈ g.edges) :
      ∀ key ∈ [edge.1, edge.2], key ∈ g.keys := by
    simpa using ends edge drawn
  cases h with
  | emptyGraph => simp [Culprit.nodes]
  | stepNaming there => exact node there
  | unknownOperation there => exact node there
  | unknownSlot there => exact node there
  | typeMismatch there => exact node (List.mem_map_of_mem there)
  | missingDatatype there => exact node (List.mem_map_of_mem there)
  | mixedStep => simp [Culprit.nodes]
  | incompleteStep => simp [Culprit.nodes]
  | fixedValueType there => exact node (List.mem_map_of_mem there)
  | skippedStep => simp [Culprit.nodes]
  | backwardEdge drawn => exact edge drawn
  | missingConnection there => exact node (List.mem_map_of_mem there)
  | edgeTypeMismatch drawn => exact edge drawn

/-- A check has nothing against a graph. -/
def Passes (g : PipelineGraph) (r : Registry) (check : Check) : Prop :=
  ∀ culprit fault, ¬ Violates g r check culprit fault

/-- A fault tells what a check has against the first part of a graph that it has something
against. -/
structure Blames (g : PipelineGraph) (r : Registry) (check : Check) (culprit : Culprit)
    (fault : GraphFault) : Prop where
  /-- The check has that against that part. -/
  violated : Violates g r check culprit fault
  /-- Every other part that it has something against comes later. -/
  first : ∀ other fault', Violates g r check other fault' →
    other = culprit ∨ g.Precedes culprit other

end PipelineGraph

end Pipewright
