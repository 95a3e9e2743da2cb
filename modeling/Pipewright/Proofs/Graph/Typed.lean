import Pipewright.Proofs.DataType.Acceptance
import Pipewright.Proofs.Graph.Wired

/-! # Types in validated pipelines
What is known of the types of the nodes of a validated pipeline: every node has one, that of a slot
is the declared one, literals conform to theirs, and connections run from slots to others that
accept them. -/

namespace Pipewright.PipelineGraph

variable {g : PipelineGraph} {r : Registry}

/-- The types of a graph fit together. -/
structure Typed (g : PipelineGraph) (r : Registry) : Prop where
  /-- Every node has a type. -/
  typed : ∀ key ∈ g.keys, ∃ t, g.datatype? key = some t
  /-- A slot of an operation has the type that the operation declares, without outer
  annotations. -/
  declared : ∀ key ∈ g.keys, ∀ o, Belongs r key o → ∀ t, o.Declares key.slot t →
    g.datatype? key = some t.unannotated
  /-- A literal conforms to the type of its slot. -/
  literal : ∀ key v, g.fixed? key = some v → ∃ t, g.datatype? key = some t ∧ v.conformsTo t = true
  /-- A slot at which a connection ends accepts the one that it comes from. -/
  accepted : ∀ edge ∈ g.edges, ∃ s t, g.datatype? edge.1 = some s ∧ g.datatype? edge.2 = some t ∧
    t.accepts s = true

/-- The types of the graph of a validated pipeline fit together. -/
theorem typed_of_validate (h : g.Built) {p : ValidatedPipeline} (e : g.validate r = .ok p) :
    p.graph.Typed r := by
  have s := h.sound
  have w := wellFormed_of_validate h e
  obtain ⟨-, fill, -⟩ := validate_eq_ok_iff.1 e
  have d := declared_of_wired w.returns_resolve w.parameters_wired
  have type : ∀ {key t}, p.graph.datatype? key = some t ↔ g.HasType r key t :=
    fill.datatype?_eq_some_iff s d
  refine ⟨fun key m => ?_, fun key m o belongs t declares => ?_, fun key v fixed => ?_,
    fun edge m => ?_⟩
  · rw [fill.keys] at m
    obtain ⟨t, typed⟩ :=
      exists_hasType d (belongs_of_outline w.ends_bare w.inner_registered) w.boundary_typed m
    exact ⟨t, type.2 typed⟩
  · rw [fill.keys] at m
    exact type.2 (.declared m belongs declares)
  · obtain ⟨after, found, fixed'⟩ := Option.bind_eq_some_iff.1 fixed
    obtain ⟨before, there, fills⟩ := fill.exists_of_mem ((fill.sound s).attrs?_eq_some_iff.1 found)
    obtain ⟨t, typed, conforms⟩ :=
      w.literals_conform key before there v (fills.fixed?.symm.trans fixed')
    exact ⟨t, type.2 typed, conforms⟩
  · rw [fill.edges] at m
    obtain ⟨source, target, typed, typed', accepts⟩ := w.accepted edge m
    exact ⟨source, target, type.2 typed, type.2 typed', accepts⟩

/-- The classes that the types of the nodes mention. -/
def classes (g : PipelineGraph) : List NodeClass :=
  g.nodes.flatMap fun node => node.2.datatype?.elim [] DataType.mentionedClasses

/-- The class of a node's type is mentioned in the graph. -/
theorem mem_classes {key : SlotKey} {t : DataType} {c : NodeClass} (h : g.Sound)
    (typed : g.datatype? key = some t) (below : t.unannotated = .node c) : c ∈ g.classes := by
  obtain ⟨attrs, found, typed'⟩ := Option.bind_eq_some_iff.1 typed
  refine List.mem_flatMap.2 ⟨(key, attrs), h.attrs?_eq_some_iff.1 found, ?_⟩
  rw [typed']
  exact DataType.mem_mentionedClasses below

/-- What feeds a slot is accepted there. -/
theorem Typed.accepts_producer (types : g.Typed r) {key source : SlotKey}
    (fed : g.producer? key = some source) : ∃ s t, g.datatype? source = some s ∧
      g.datatype? key = some t ∧ t.accepts s = true := by
  have m : (source, key) ∈ g.inEdges key := by
    rw [producer?_eq_some_iff.1 fed]
    exact List.mem_singleton_self _
  exact types.accepted _ (List.mem_filter.1 m).1

end Pipewright.PipelineGraph
