import Pipewright.DataType.Basic
import Pipewright.Graph.Key
import Pipewright.Keyed

/-! # Pipeline graphs
The slots of a pipeline with their attributes, in key order, and the connections between them, in
the order in which they were drawn. A connection is drawn at most once, and its ends are always
nodes of the graph. -/

namespace Pipewright

/-- What a graph node carries. -/
structure SlotAttrs where
  /-- The type of its values. -/
  datatype? : Option DataType
  /-- The literal that stands in for a connection. -/
  fixed? : Option Value
  /-- The place among the overall inputs or outputs. -/
  position? : Option Nat

namespace SlotAttrs

/-- No attributes. -/
def empty : SlotAttrs := ⟨none, none, none⟩

/-- Equality of attributes. -/
def beq (a b : SlotAttrs) : Bool :=
  a.datatype? == b.datatype? && a.fixed? == b.fixed? && a.position? == b.position?

instance : BEq SlotAttrs := ⟨beq⟩

end SlotAttrs

/-- A pipeline graph. -/
structure PipelineGraph where
  /-- The nodes in key order. -/
  nodes : List (SlotKey × SlotAttrs)
  /-- The connections, each from a producing to a consuming slot. -/
  edges : List (SlotKey × SlotKey)

namespace PipelineGraph

/-- The graph without nodes. -/
def empty : PipelineGraph := ⟨[], []⟩

/-- Equality of graphs: the same nodes with equal attributes, the same connections in the same
order. -/
def beq (g h : PipelineGraph) : Bool := g.nodes == h.nodes && g.edges == h.edges

instance : BEq PipelineGraph := ⟨beq⟩

/-! ## Building -/

/-- Add a node, or replace the attributes of one that is there. -/
def addNode (g : PipelineGraph) (key : SlotKey) (attrs : SlotAttrs) : PipelineGraph :=
  { g with nodes := Keyed.insert key attrs g.nodes }

/-- Add an overall input. -/
def addInput (g : PipelineGraph) (name : String) (t : DataType) (position : Nat) : PipelineGraph :=
  g.addNode (.input name) ⟨some t, none, some position⟩

/-- Add an overall output. -/
def addOutput (g : PipelineGraph) (lastStep : Nat) (name : String) (t : DataType)
    (position : Nat) : PipelineGraph :=
  g.addNode (.output lastStep name) ⟨some t, none, some position⟩

/-- Add a parameter that a connection will feed. -/
def addParameter (g : PipelineGraph) (step : Nat) (operation slot : String) : PipelineGraph :=
  g.addNode (.parameter step operation slot) .empty

/-- Add a parameter with a literal. -/
def addFixed (g : PipelineGraph) (step : Nat) (operation slot : String) (v : Value) :
    PipelineGraph :=
  g.addNode (.parameter step operation slot) ⟨none, some v, none⟩

/-- Add the return value of an operation. -/
def addReturn (g : PipelineGraph) (step : Nat) (operation : String) : PipelineGraph :=
  g.addNode (.returnValue step operation) .empty

/-- Add a field of an operation's return value. -/
def addReturnField (g : PipelineGraph) (step : Nat) (operation field : String) : PipelineGraph :=
  g.addNode (.returnField step operation field) .empty

/-- Add a node without attributes, unless it is there. -/
def ensureNode (g : PipelineGraph) (key : SlotKey) : PipelineGraph :=
  if Keyed.contains key g.nodes then g else g.addNode key .empty

/-- Connect two slots, which become nodes if they are none; a connection that is there already is
not drawn again. -/
def addEdge (g : PipelineGraph) (source target : SlotKey) : PipelineGraph :=
  let g := (g.ensureNode source).ensureNode target
  if g.edges.contains (source, target) then g
  else { g with edges := g.edges ++ [(source, target)] }

/-- Disconnect two slots. -/
def removeEdge (g : PipelineGraph) (source target : SlotKey) : PipelineGraph :=
  { g with edges := g.edges.filter fun edge => decide (edge ≠ (source, target)) }

/-- Disconnect two slots, and tell whether they were connected: then a connection less is left. -/
def disconnect (g : PipelineGraph) (source target : SlotKey) : Bool × PipelineGraph :=
  let rest := g.removeEdge source target
  (decide (rest.edges.length ≠ g.edges.length), rest)

/-- Change the attributes of a node, if it is there. -/
def modifyNode (g : PipelineGraph) (key : SlotKey) (f : SlotAttrs → SlotAttrs) : PipelineGraph :=
  { g with nodes := Keyed.modify key f g.nodes }

/-! ## Reading -/

/-- The attributes of a node. -/
def attrs? (g : PipelineGraph) (key : SlotKey) : Option SlotAttrs := Keyed.lookup key g.nodes

/-- Whether a key is a node. -/
def contains (g : PipelineGraph) (key : SlotKey) : Bool := Keyed.contains key g.nodes

/-- The type of a node, if it has one. -/
def datatype? (g : PipelineGraph) (key : SlotKey) : Option DataType :=
  (g.attrs? key).bind SlotAttrs.datatype?

/-- The literal on a node, if it has one. -/
def fixed? (g : PipelineGraph) (key : SlotKey) : Option Value :=
  (g.attrs? key).bind SlotAttrs.fixed?

/-- The place of a node, if it has one. -/
def position? (g : PipelineGraph) (key : SlotKey) : Option Nat :=
  (g.attrs? key).bind SlotAttrs.position?

/-- The keys of all nodes, in key order. -/
def keys (g : PipelineGraph) : List SlotKey := Keyed.keys g.nodes

/-- The connections that end at a slot. -/
def inEdges (g : PipelineGraph) (key : SlotKey) : List (SlotKey × SlotKey) :=
  g.edges.filter fun edge => decide (edge.2 = key)

/-- The number of connections that end at a slot. -/
def inDegree (g : PipelineGraph) (key : SlotKey) : Nat := (g.inEdges key).length

/-- The slot that feeds another, if exactly one connection ends there. -/
def producer? (g : PipelineGraph) (key : SlotKey) : Option SlotKey :=
  match g.inEdges key with
  | [(source, _)] => some source
  | _ => none

/-- A slot has a producer exactly when the connections that end there are the one from it. -/
theorem producer?_eq_some_iff {g : PipelineGraph} {key source : SlotKey} :
    g.producer? key = some source ↔ g.inEdges key = [(source, key)] := by
  have ends : ∀ edge ∈ g.inEdges key, edge.2 = key := fun edge h => by
    simpa using (List.mem_filter.1 h).2
  unfold producer?
  split
  · next s t h =>
    have : t = key := ends (s, t) (by simp [h])
    simp [h, this]
  · next h => exact ⟨fun e => by simp at e, fun e => absurd e (h source key)⟩

end PipelineGraph

end Pipewright
