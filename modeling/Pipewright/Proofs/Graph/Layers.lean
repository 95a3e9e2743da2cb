import Pipewright.Proofs.Graph.Validation
import Pipewright.Proofs.Registry.Layers

/-! # Validating below the layers of annotation
A graph without the outer layers of the types of its nodes is valid exactly if the graph is, and
slots of operations are filled in with the same types. -/

namespace Pipewright

/-- What went wrong is changed in one way, and what came out in another. -/
def mapBoth {ε ε' α β : Type} (e : ε → ε') (f : α → β) : Except ε α → Except ε' β
  | .error fault => .error (e fault)
  | .ok a => .ok (f a)

@[simp] theorem mapBoth_error {ε ε' α β : Type} (e : ε → ε') (f : α → β) (fault : ε) :
    mapBoth e f (.error fault) = .error (e fault) := rfl

@[simp] theorem mapBoth_ok {ε ε' α β : Type} (e : ε → ε') (f : α → β) (a : α) :
    mapBoth e f (.ok a) = .ok (f a) := rfl

/-- Turning the changed members of a list over comes to the changed results, if it does so for each
member. -/
theorem mapM_map_eq_mapBoth {ε ε' α α' β β' : Type} {f : α → Except ε β} {f' : α' → Except ε' β'}
    (φ : α → α') {e : ε → ε'} {h : β → β'} (each : ∀ a, f' (φ a) = mapBoth e h (f a)) (l : List α) :
    (l.map φ).mapM f' = mapBoth e (List.map h) (l.mapM f) := by
  induction l with
  | nil => rfl
  | cons a rest ih =>
    rw [List.map_cons, List.mapM_cons, List.mapM_cons, each, ih]
    cases f a with
    | error fault => rfl
    | ok b => cases rest.mapM f <;> rfl

/-- What is found first among changed members is what is found first, changed, if it is so for each
member. -/
theorem findSome?_map_eq_map {α α' β β' : Type} {f : α → Option β} {f' : α' → Option β'}
    (φ : α → α') {e : β → β'} (each : ∀ a, f' (φ a) = (f a).map e) (l : List α) :
    (l.map φ).findSome? f' = (l.findSome? f).map e := by
  have same : f' ∘ φ = Option.map e ∘ f := funext each
  rw [List.findSome?_map, List.map_findSome?, same]

/-- The same if the members stay as they are. -/
theorem findSome?_eq_map {α β β' : Type} {f : α → Option β} {f' : α → Option β'} {e : β → β'}
    (each : ∀ a, f' a = (f a).map e) (l : List α) : l.findSome? f' = (l.findSome? f).map e := by
  have found := findSome?_map_eq_map id each l
  rwa [List.map_id] at found

/-! ## Graphs and faults without layers -/

/-- Attributes without the outer layers of the type. -/
def SlotAttrs.bare (attrs : SlotAttrs) : SlotAttrs :=
  { attrs with datatype? := attrs.datatype?.map DataType.unannotated }

namespace SlotAttrs

@[simp] theorem datatype?_bare (attrs : SlotAttrs) :
    attrs.bare.datatype? = attrs.datatype?.map DataType.unannotated := rfl

@[simp] theorem fixed?_bare (attrs : SlotAttrs) : attrs.bare.fixed? = attrs.fixed? := rfl

@[simp] theorem position?_bare (attrs : SlotAttrs) : attrs.bare.position? = attrs.position? := rfl

end SlotAttrs

/-- A fault without the outer layers of the types that it tells. -/
def GraphFault.bare : GraphFault → GraphFault
  | .typeMismatch node expected found =>
    .typeMismatch node expected.unannotated found.unannotated
  | .fixedValueType node v expected => .fixedValueType node v expected.unannotated
  | .edgeTypeMismatch source target sourceType targetType =>
    .edgeTypeMismatch source target sourceType.unannotated targetType.unannotated
  | fault => fault

namespace PipelineGraph

/-- A graph without the outer layers of the types of its nodes. -/
def bare (g : PipelineGraph) : PipelineGraph :=
  { g with nodes := Keyed.mapValues SlotAttrs.bare g.nodes }

/-- A node without the outer layers of its type. -/
def bareNode (node : SlotKey × SlotAttrs) : SlotKey × SlotAttrs := (node.1, node.2.bare)

variable {g : PipelineGraph} {r : Registry} {key : SlotKey}

@[simp] theorem edges_bare (g : PipelineGraph) : g.bare.edges = g.edges := rfl

@[simp] theorem keys_bare (g : PipelineGraph) : g.bare.keys = g.keys := Keyed.keys_mapValues _ _

@[simp] theorem groups_bare (g : PipelineGraph) : g.bare.groups = g.groups := by simp [groups]

@[simp] theorem numSteps_bare (g : PipelineGraph) : g.bare.numSteps = g.numSteps := by
  simp [numSteps]

@[simp] theorem keysAt_bare (g : PipelineGraph) (step : Nat) :
    g.bare.keysAt step = g.keysAt step := by
  simp [keysAt]

@[simp] theorem attrs?_bare (g : PipelineGraph) (key : SlotKey) :
    g.bare.attrs? key = (g.attrs? key).map SlotAttrs.bare := Keyed.lookup_mapValues _ _ _

/-- A node has its type without the outer layers. -/
@[simp] theorem datatype?_bare (g : PipelineGraph) (key : SlotKey) :
    g.bare.datatype? key = (g.datatype? key).map DataType.unannotated := by
  simp [datatype?, Option.bind_map, Option.map_bind, Function.comp_def]

@[simp] theorem fixed?_bare (g : PipelineGraph) (key : SlotKey) :
    g.bare.fixed? key = g.fixed? key := by
  simp [fixed?, Option.bind_map, Function.comp_def]

@[simp] theorem position?_bare (g : PipelineGraph) (key : SlotKey) :
    g.bare.position? key = g.position? key := by
  simp [position?, Option.bind_map, Function.comp_def]

@[simp] theorem inDegree_bare (g : PipelineGraph) (key : SlotKey) :
    g.bare.inDegree key = g.inDegree key := rfl

@[simp] theorem producer?_bare (g : PipelineGraph) (key : SlotKey) :
    g.bare.producer? key = g.producer? key := rfl

/-! ## Filling in -/

/-- The naming check asks for the names that are registered. -/
theorem namingFault?_bare (g : PipelineGraph) (r : Registry) (key : SlotKey) :
    g.bare.namingFault? r.bare key = (g.namingFault? r key).map GraphFault.bare := by
  unfold namingFault? lastStep
  simp only [numSteps_bare, Registry.contains_bare]
  cases key.operation with
  | none =>
    dsimp only
    split <;> rfl
  | some name =>
    dsimp only
    split
    · rfl
    · split <;> rfl

/-- The outline has the same fault. -/
theorem outlineFault?_bare (g : PipelineGraph) (r : Registry) :
    g.bare.outlineFault? r.bare = (g.outlineFault? r).map GraphFault.bare := by
  have empty : g.bare.nodes.isEmpty = g.nodes.isEmpty := by simp [bare, Keyed.mapValues]
  unfold outlineFault?
  rw [empty, keys_bare]
  split
  · rfl
  · exact findSome?_eq_map (g.namingFault?_bare r) g.keys

/-- No layers are looked up. -/
theorem mapBoth_declaredType (r : Registry) (key : SlotKey) :
    mapBoth GraphFault.bare (Option.map DataType.unannotated) (declaredType r key) =
      declaredType r key := by
  unfold declaredType
  split
  · rfl
  · split
    · simp
    · split
      · split
        · simp
        · rfl
      · simp [Function.comp_def]

/-- The same types are looked up. -/
@[simp] theorem declaredType_bare (r : Registry) (key : SlotKey) :
    declaredType r.bare key = declaredType r key := by
  unfold declaredType
  cases key.operation with
  | none => rfl
  | some name =>
    simp only [Option.bind_some, Registry.operation?_bare]
    cases r.operation? name with
    | none => rfl
    | some o => simp [Function.comp_def, funext o.returns.fieldPath?_unannotated]

/-- A node without layers is filled in as the node is, or has the same fault. -/
theorem fillNode_bare (r : Registry) (node : SlotKey × SlotAttrs) :
    fillNode r.bare (bareNode node) = mapBoth GraphFault.bare bareNode (fillNode r node) := by
  obtain ⟨key, attrs⟩ := node
  have stripped := mapBoth_declaredType r key
  unfold fillNode bareNode
  simp only [declaredType_bare]
  split
  · rfl
  · cases looked : declaredType r key with
    | error fault =>
      rw [looked] at stripped
      have below : fault.bare = fault := Except.error.inj stripped
      simp [below]
    | ok expected? =>
      rw [looked] at stripped
      cases expected? with
      | none => rfl
      | some expected =>
        have below : expected.unannotated = expected := Option.some.inj (Except.ok.inj stripped)
        cases given : attrs.datatype? with
        | none => simp [given, SlotAttrs.bare, below]
        | some found =>
          simp only [SlotAttrs.datatype?_bare, given, Option.map_some,
            DataType.unannotated_unannotated]
          split
          · simp [SlotAttrs.bare, below]
          · simp [GraphFault.bare, below]

/-- A graph without layers is filled in as the graph is, or has the same fault. -/
theorem fillTypes_bare (g : PipelineGraph) (r : Registry) :
    g.bare.fillTypes r.bare = mapBoth GraphFault.bare bare (g.fillTypes r) := by
  unfold fillTypes
  have filled : g.bare.nodes.mapM (fillNode r.bare) = _ :=
    mapM_map_eq_mapBoth bareNode (fillNode_bare r) g.nodes
  rw [filled]
  cases g.nodes.mapM (fillNode r) <;> rfl

/-! ## Checks of filled graphs -/

/-- An overall input or output has a type or none. -/
theorem untypedFault?_bare (node : SlotKey × SlotAttrs) :
    untypedFault? (bareNode node) = (untypedFault? node).map GraphFault.bare := by
  unfold untypedFault? bareNode
  simp only [SlotAttrs.datatype?_bare, Option.isNone_map]
  split <;> rfl

/-- A step is asked for the names of parameters only. -/
theorem stepFault?_bare (r : Registry) (keys : List SlotKey) :
    stepFault? r.bare keys = (stepFault? r keys).map GraphFault.bare := by
  unfold stepFault?
  cases keys with
  | nil => rfl
  | cons first rest =>
    simp only
    split
    · rfl
    · cases first.operation with
      | none => rfl
      | some name =>
        simp only [Registry.operation?_bare]
        cases r.operation? name with
        | none => rfl
        | some o =>
          simp only [Option.map_some, Operation.parameterNames_bare]
          split <;> rfl

/-- A literal conforms to the type below the layers. -/
theorem literalFault?_bare (node : SlotKey × SlotAttrs) :
    literalFault? (bareNode node) = (literalFault? node).map GraphFault.bare := by
  unfold literalFault? bareNode
  simp only [SlotAttrs.fixed?_bare, SlotAttrs.datatype?_bare]
  cases node.2.fixed? with
  | none => rfl
  | some v =>
    cases node.2.datatype? with
    | none => rfl
    | some t =>
      simp only [Option.map_some, Value.conformsTo_unannotated]
      split <;> rfl

/-- The same steps are used. -/
theorem skippedFault?_bare (g : PipelineGraph) :
    g.bare.skippedFault? = g.skippedFault?.map GraphFault.bare := by
  unfold skippedFault? usedSteps
  rw [groups_bare]
  split <;> rfl

/-- Connections go to the same steps. -/
theorem directionFault?_bare (edge : SlotKey × SlotKey) :
    directionFault? edge = (directionFault? edge).map GraphFault.bare := by
  unfold directionFault?
  split <;> rfl

/-- The same slots are fed. -/
theorem producerFault?_bare (g : PipelineGraph) (node : SlotKey × SlotAttrs) :
    g.bare.producerFault? (bareNode node) = (g.producerFault? node).map GraphFault.bare := by
  unfold producerFault? bareNode
  simp only [SlotAttrs.fixed?_bare, inDegree_bare]
  split
  · next fed => simp [fed]
  · next unfed => simp [unfed, GraphFault.bare]

/-- The types below the layers are accepted. -/
theorem acceptanceFault?_bare (g : PipelineGraph) (edge : SlotKey × SlotKey) :
    g.bare.acceptanceFault? edge = (g.acceptanceFault? edge).map GraphFault.bare := by
  unfold acceptanceFault?
  simp only [datatype?_bare]
  cases g.datatype? edge.1 with
  | none => rfl
  | some source =>
    cases g.datatype? edge.2 with
    | none => rfl
    | some target =>
      simp only [Option.map_some, DataType.unannotated_accepts, DataType.accepts_unannotated]
      split <;> rfl

/-- A filled graph has the same fault without layers. -/
theorem filledFault?_bare (g : PipelineGraph) (r : Registry) :
    g.bare.filledFault? r.bare = (g.filledFault? r).map GraphFault.bare := by
  have nodes : g.bare.nodes = g.nodes.map bareNode := rfl
  unfold filledFault?
  simp only [nodes, edges_bare, groups_bare, skippedFault?_bare, Option.map_or,
    findSome?_map_eq_map bareNode untypedFault?_bare, findSome?_eq_map (stepFault?_bare r),
    findSome?_map_eq_map bareNode literalFault?_bare, findSome?_eq_map g.acceptanceFault?_bare,
    findSome?_map_eq_map bareNode g.producerFault?_bare]
  rw [← findSome?_eq_map directionFault?_bare]

end PipelineGraph

/-- A validated pipeline without the outer layers of the types of its nodes. -/
def ValidatedPipeline.bare (p : ValidatedPipeline) : ValidatedPipeline := ⟨p.graph.bare⟩

namespace PipelineGraph

variable {g : PipelineGraph} {r : Registry}

/-- Validation comes to the same pipeline below the layers, or to the same fault. -/
theorem validate_bare (g : PipelineGraph) (r : Registry) :
    g.bare.validate r.bare = mapBoth GraphFault.bare ValidatedPipeline.bare (g.validate r) := by
  unfold validate
  rw [outlineFault?_bare, fillTypes_bare]
  cases g.outlineFault? r with
  | some fault => rfl
  | none =>
    cases g.fillTypes r with
    | error fault => rfl
    | ok filled =>
      simp only [mapBoth_ok, filledFault?_bare]
      cases filled.filledFault? r <;> rfl

/-- If the steps of a graph are complete, every slot of an operation that is not spelled like a
return value is a parameter. -/
theorem declares_of_stepFaults (registered : ∀ key ∈ g.keys, key.operation ≠ none →
    ∃ o, Belongs r key o) (complete : g.groups.findSome? (stepFault? r) = none) {key : SlotKey}
    (m : key ∈ g.keys) {o : Operation} (belongs : Belongs r key o)
    (plain : ¬ SpelledReturn key.slot) : ∃ t, o.Declares key.slot t := by
  have joined : g.groups.flatten = g.keys := List.flatten_splitBy _ _
  obtain ⟨run, group, there⟩ := List.mem_flatten.1 (joined ▸ m)
  have within : ∀ other ∈ run, other.operation ≠ none → ∃ o, Belongs r other o :=
    fun other k => registered other (joined ▸ List.mem_flatten.2 ⟨run, group, k⟩)
  have wired := ((stepFault?_eq_none_iff within).1
    (List.findSome?_eq_none_iff.1 complete run group)).2 key there o belongs
  have unlike : key.isReturn = false := SlotKey.isReturn_eq_false_iff.2 plain
  have slot : key.slot ∈ o.parameters.map Prod.fst :=
    wired.mem_iff.1 (List.mem_map_of_mem (List.mem_filter.2 ⟨there, by simp [unlike]⟩))
  obtain ⟨t, found⟩ := Keyed.exists_lookup_of_mem_keys slot
  exact ⟨t, .parameter plain found⟩

/-- Slots of operations have no layers in a validated pipeline. -/
theorem datatype?_interior {p : ValidatedPipeline} (valid : g.validate r = .ok p) {key : SlotKey}
    (bound : key.operation ≠ none) :
    (p.graph.datatype? key).map DataType.unannotated = p.graph.datatype? key := by
  obtain ⟨outline, filling, checks⟩ := validate_eq_ok_iff.1 valid
  have registered := belongs_of_outlineFault? outline
  simp only [filledFault?, Option.or_eq_none_iff] at checks
  have complete := checks.2.1
  rw [filling.groups] at complete
  unfold datatype?
  cases found : p.graph.attrs? key with
  | none => rfl
  | some attrs =>
    obtain ⟨before, there, fills⟩ := filling.exists_of_mem (Keyed.mem_of_lookup found)
    cases fills with
    | boundary boundary => exact absurd boundary bound
    | declared => simp
    | passed belongs plain undeclared =>
      have m : key ∈ g.keys := List.mem_map_of_mem there
      obtain ⟨t, declares⟩ := declares_of_stepFaults registered complete m belongs plain
      exact absurd declares (undeclared t)

end PipelineGraph

end Pipewright
