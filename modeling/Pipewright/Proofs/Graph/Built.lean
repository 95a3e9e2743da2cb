import Mathlib.Data.List.Nodup
import Pipewright.Graph.Basic
import Pipewright.Proofs.Graph.Order
import Pipewright.Proofs.Keyed

/-! # Graphs that can be built
A graph is built from the empty one by adding nodes, changing their attributes, and drawing and
removing connections, as long as there is room for its nodes. In every graph that is built so the
nodes are in key order, and the connections run between nodes and are drawn once. -/

namespace Pipewright.PipelineGraph

/-- The graphs that edits lead to. -/
inductive Reachable : PipelineGraph → Prop where
  /-- The graph without nodes. -/
  | empty : Reachable empty
  /-- A node is added, or its attributes are replaced. -/
  | addNode {g : PipelineGraph} (key : SlotKey) (attrs : SlotAttrs) (h : Reachable g) :
    Reachable (g.addNode key attrs)
  /-- The attributes of a node are changed. -/
  | modifyNode {g : PipelineGraph} (key : SlotKey) (f : SlotAttrs → SlotAttrs) (h : Reachable g) :
    Reachable (g.modifyNode key f)
  /-- A connection is drawn. -/
  | addEdge {g : PipelineGraph} (source target : SlotKey) (h : Reachable g) :
    Reachable (g.addEdge source target)
  /-- A connection is removed. -/
  | removeEdge {g : PipelineGraph} (source target : SlotKey) (h : Reachable g) :
    Reachable (g.removeEdge source target)

/-- The graphs that can be built. A word counts the bytes of a memory, of which every node takes more
than two, so there is room for fewer nodes than a signed word counts. -/
structure Built (g : PipelineGraph) : Prop where
  /-- Edits lead to it. -/
  reachable : Reachable g
  /-- There is room for its nodes. -/
  fits : g.nodes.length < signedBound

/-- What the nodes and connections of a graph keep to. -/
structure Sound (g : PipelineGraph) : Prop where
  /-- The nodes are in key order. -/
  sorted : Keyed.Sorted g.nodes
  /-- Both ends of a connection are nodes. -/
  ends : ∀ edge ∈ g.edges, edge.1 ∈ g.keys ∧ edge.2 ∈ g.keys
  /-- No connection is drawn twice. -/
  once : g.edges.Nodup

/-- The graph without nodes is sound. -/
theorem sound_empty : Sound empty where
  sorted := List.Pairwise.nil
  ends := by simp [empty]
  once := List.nodup_nil

/-- The keys after a node is added are its key and those that were there. -/
theorem mem_keys_addNode {g : PipelineGraph} {key other : SlotKey} {attrs : SlotAttrs} :
    other ∈ (g.addNode key attrs).keys ↔ other = key ∨ other ∈ g.keys :=
  Keyed.mem_keys_insert

/-- A node is there after it was ensured, and the others still are. -/
theorem mem_keys_ensureNode {g : PipelineGraph} {key other : SlotKey} :
    other ∈ (g.ensureNode key).keys ↔ other = key ∨ other ∈ g.keys := by
  unfold ensureNode
  split
  · next h =>
    have there : key ∈ g.keys := Keyed.contains_iff.1 h
    constructor
    · exact .inr
    · rintro (rfl | m)
      · exact there
      · exact m
  · exact mem_keys_addNode

/-- Ensuring a node draws no connection. -/
@[simp] theorem edges_ensureNode (g : PipelineGraph) (key : SlotKey) :
    (g.ensureNode key).edges = g.edges := by
  unfold ensureNode
  split
  · rfl
  · rfl

namespace Sound

variable {g : PipelineGraph}

/-- Adding a node keeps a graph sound. -/
theorem addNode (h : Sound g) (key : SlotKey) (attrs : SlotAttrs) :
    Sound (g.addNode key attrs) where
  sorted := h.sorted.insert SlotKey.lt_trans SlotKey.lt_total
  ends edge m :=
    have old := h.ends edge m
    ⟨mem_keys_addNode.2 (.inr old.1), mem_keys_addNode.2 (.inr old.2)⟩
  once := h.once

/-- Changing the attributes of a node keeps a graph sound. -/
theorem modifyNode (h : Sound g) (key : SlotKey) (f : SlotAttrs → SlotAttrs) :
    Sound (g.modifyNode key f) where
  sorted := h.sorted.modify key f
  ends edge m := by
    have keys : (g.modifyNode key f).keys = g.keys := Keyed.keys_modify key f g.nodes
    rw [keys]
    exact h.ends edge m
  once := h.once

/-- Adding a missing node keeps a graph sound. -/
theorem ensureNode (h : Sound g) (key : SlotKey) : Sound (g.ensureNode key) := by
  unfold PipelineGraph.ensureNode
  split
  · exact h
  · exact h.addNode key .empty

/-- Drawing a connection keeps a graph sound. -/
theorem addEdge (h : Sound g) (source target : SlotKey) : Sound (g.addEdge source target) := by
  have both := (h.ensureNode source).ensureNode target
  unfold PipelineGraph.addEdge
  simp only
  split
  · exact both
  · next new =>
    have fresh : (source, target) ∉ ((g.ensureNode source).ensureNode target).edges := by
      simpa using new
    refine ⟨both.sorted, fun edge m => ?_, ?_⟩
    · rcases List.mem_append.1 m with m | m
      · exact both.ends edge m
      · rw [List.mem_singleton.1 m]
        exact ⟨mem_keys_ensureNode.2 (.inr (mem_keys_ensureNode.2 (.inl rfl))),
          mem_keys_ensureNode.2 (.inl rfl)⟩
    · exact List.nodup_append.2 ⟨both.once, List.nodup_singleton _, fun edge m edge' m' e =>
        fresh (List.mem_singleton.1 m' ▸ e ▸ m)⟩

/-- Removing a connection keeps a graph sound. -/
theorem removeEdge (h : Sound g) (source target : SlotKey) :
    Sound (g.removeEdge source target) where
  sorted := h.sorted
  ends edge m := h.ends edge (List.mem_filter.1 m).1
  once := h.once.filter _

end Sound

/-- Every graph that edits lead to is sound. -/
theorem Reachable.sound {g : PipelineGraph} (h : Reachable g) : Sound g := by
  induction h with
  | empty => exact sound_empty
  | addNode key attrs _ ih => exact ih.addNode key attrs
  | modifyNode key f _ ih => exact ih.modifyNode key f
  | addEdge source target _ ih => exact ih.addEdge source target
  | removeEdge source target _ ih => exact ih.removeEdge source target

/-- Every graph that can be built is sound. -/
theorem Built.sound {g : PipelineGraph} (h : Built g) : Sound g := h.reachable.sound

namespace Sound

variable {g : PipelineGraph}

/-- The keys of a sound graph are ascending. -/
theorem keys (h : Sound g) : g.keys.Pairwise (· < ·) := h.sorted.keys

/-- No key of a sound graph is repeated. -/
theorem nodup_keys (h : Sound g) : g.keys.Nodup :=
  h.keys.imp fun {a b} (l : a < b) (e : a = b) => SlotKey.lt_irrefl a (e ▸ l)

/-- The steps of the keys of a sound graph do not descend. -/
theorem steps (h : Sound g) : g.keys.Pairwise fun a b => a.step ≤ b.step :=
  h.keys.imp SlotKey.step_le_of_lt

/-- The attributes of a node of a sound graph are those it is stored with. -/
theorem attrs?_eq_some_iff (h : Sound g) {key : SlotKey} {attrs : SlotAttrs} :
    g.attrs? key = some attrs ↔ (key, attrs) ∈ g.nodes :=
  h.sorted.lookup_eq_some_iff SlotKey.lt_irrefl

end Sound

end Pipewright.PipelineGraph
