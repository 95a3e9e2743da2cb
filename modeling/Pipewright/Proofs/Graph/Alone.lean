import Pipewright.Proofs.DataType.Layers
import Pipewright.Proofs.DataType.Ordering
import Pipewright.Proofs.Graph.Validation
import Pipewright.Proofs.Registry

/-! # Pipelines of one operation
Which registered operations a pipeline can use at all. The smallest pipeline around an operation
feeds each of its parameters from an overall input and hands its return value to an overall output.
Validation accepts such a graph for every operation none of whose parameters is named like a return
value. Registering an operation does not look at how its parameters are named, but a slot that is
spelled like a return value is never taken for a parameter, so an operation with such a parameter
fits into no pipeline. -/

namespace Pipewright

/-- An operation whose types hold only numbers. -/
structure Operation.Numeric (o : Operation) : Prop where
  /-- The type of what is returned does. -/
  returns : o.returns.Numeric
  /-- The types of the parameters do. -/
  parameters : ∀ p ∈ o.parameters, p.2.Numeric

namespace PipelineGraph

variable {g : PipelineGraph} {r : Registry} {name : String} {o : Operation}

/-! ## Drawing a graph -/

/-- A connection between two nodes that is not there yet is put behind the others. -/
theorem addEdge_of_new {source target : SlotKey} (there : source ∈ g.keys) (there' : target ∈ g.keys)
    (new : (source, target) ∉ g.edges) :
    g.addEdge source target = { g with edges := g.edges ++ [(source, target)] } := by
  have ensured : ∀ key ∈ g.keys, g.ensureNode key = g := fun key m => by
    rw [ensureNode, if_pos (Keyed.contains_iff.2 m)]
  rw [addEdge, ensured source there, ensured target there', if_neg (by simpa using new)]

/-- Connections between nodes that are not there yet are put behind the others in their order. -/
theorem foldl_addEdge {edges : List (SlotKey × SlotKey)}
    (ends : ∀ edge ∈ edges, edge.1 ∈ g.keys ∧ edge.2 ∈ g.keys)
    (once : (g.edges ++ edges).Nodup) :
    edges.foldl (fun g edge => g.addEdge edge.1 edge.2) g =
      { g with edges := g.edges ++ edges } := by
  induction edges generalizing g with
  | nil => simp
  | cons edge rest ih =>
    obtain ⟨first, others⟩ := List.forall_mem_cons.1 ends
    have new : edge ∉ g.edges := fun m =>
      (List.disjoint_of_nodup_append once) m List.mem_cons_self
    have moved : g.edges ++ edge :: rest = (g.edges ++ [edge]) ++ rest := by simp
    rw [moved] at once ⊢
    rw [List.foldl_cons, addEdge_of_new first.1 first.2 new]
    exact ih others once

/-- A graph that is drawn from a list of nodes and a list of connections. -/
def drawn (nodes : List (SlotKey × SlotAttrs)) (edges : List (SlotKey × SlotKey)) :
    PipelineGraph :=
  edges.foldl (fun g edge => g.addEdge edge.1 edge.2)
    (nodes.foldl (fun g node => g.addNode node.1 node.2) empty)

variable {nodes : List (SlotKey × SlotAttrs)} {edges : List (SlotKey × SlotKey)}

/-- Edits lead to what is drawn. -/
theorem reachable_drawn (nodes : List (SlotKey × SlotAttrs)) (edges : List (SlotKey × SlotKey)) :
    (drawn nodes edges).Reachable := by
  have added : ∀ {g : PipelineGraph}, g.Reachable →
      (nodes.foldl (fun g node => g.addNode node.1 node.2) g).Reachable := by
    induction nodes with
    | nil => exact id
    | cons node rest ih => exact fun h => ih (.addNode _ _ h)
  have connected : ∀ {g : PipelineGraph}, g.Reachable →
      (edges.foldl (fun g edge => g.addEdge edge.1 edge.2) g).Reachable := by
    induction edges with
    | nil => exact id
    | cons edge rest ih => exact fun h => ih (.addEdge _ _ h)
  exact connected (added .empty)

/-- If no key is repeated and the connections are between the nodes, what is drawn is what was
listed. -/
theorem drawn_eq (once : (Keyed.keys nodes).Nodup)
    (ends : ∀ edge ∈ edges, edge.1 ∈ Keyed.keys nodes ∧ edge.2 ∈ Keyed.keys nodes)
    (apart : edges.Nodup) :
    (∀ node, node ∈ (drawn nodes edges).nodes ↔ node ∈ nodes) ∧
      (drawn nodes edges).edges = edges := by
  have added : ∀ (g : PipelineGraph),
      nodes.foldl (fun g node => g.addNode node.1 node.2) g =
        ⟨nodes.foldl (fun stored node => Keyed.insert node.1 node.2 stored) g.nodes, g.edges⟩ := by
    clear once ends
    induction nodes with
    | nil => exact fun _ => rfl
    | cons node rest ih => exact fun g => ih (g.addNode node.1 node.2)
  have sorted : Keyed.Sorted (Keyed.ofList nodes) := by
    have := (reachable_drawn nodes []).sound.sorted
    rw [drawn, List.foldl_nil, added] at this
    exact this
  have same : ∀ node, node ∈ Keyed.ofList nodes ↔ node ∈ nodes := by
    rintro ⟨key, attrs⟩
    rw [← sorted.lookup_eq_some_iff SlotKey.lt_irrefl, Keyed.lookup_ofList once]
    exact ⟨Keyed.mem_of_lookup, Keyed.lookup_of_mem_of_nodup once⟩
  have there : ∀ key ∈ Keyed.keys nodes, key ∈ Keyed.keys (Keyed.ofList nodes) := by
    intro key m
    obtain ⟨node, m', rfl⟩ := List.mem_map.1 m
    exact List.mem_map_of_mem ((same node).2 m')
  have connected : drawn nodes edges = ⟨Keyed.ofList nodes, edges⟩ := by
    rw [drawn, added]
    exact foldl_addEdge (g := ⟨Keyed.ofList nodes, []⟩)
      (fun edge m => ⟨there _ (ends edge m).1, there _ (ends edge m).2⟩) (by simpa using apart)
  rw [connected]
  exact ⟨same, rfl⟩

/-! ## The smallest pipeline around an operation -/

/-- A graph uses one operation alone: overall inputs of the declared types feed its parameters, and
its return value is the only overall output, of the declared type. -/
structure RunsAlone (g : PipelineGraph) (name : String) (o : Operation) : Prop where
  /-- Whatever names an operation is at the first inner step and names this one. -/
  inner : ∀ key ∈ g.keys, key.operation ≠ none → key.step = 1 ∧ key.operation = some name
  /-- There is an overall input. -/
  input : ∃ slot, SlotKey.input slot ∈ g.keys
  /-- Each parameter is fed from an overall input of its declared type. -/
  fed : ∀ p ∈ o.parameters, ∃ slot attrs, (SlotKey.input slot, attrs) ∈ g.nodes ∧
    attrs.datatype? = some p.2 ∧ (.input slot, .parameter 1 name p.1) ∈ g.edges
  /-- The return value is handed to the overall output, which has the declared type. -/
  output : ∃ slot attrs, (SlotKey.output 2 slot, attrs) ∈ g.nodes ∧
    attrs.datatype? = some o.returns ∧ (.returnValue 1 name, .output 2 slot) ∈ g.edges ∧
    ∀ key ∈ g.keys, 2 ≤ key.step → key = .output 2 slot

/-- The steps of a graph that uses one operation alone are few. -/
theorem RunsAlone.stepsBelow (h : g.RunsAlone name o) : g.StepsBelow wordCount := by
  obtain ⟨slot, -, -, -, -, last⟩ := h.output
  intro key m
  have least : wordCount = 18446744073709551616 := rfl
  by_cases later : 2 ≤ key.step
  · have : key.step = 2 := congrArg SlotKey.step (last key m later)
    omega
  · omega

/-- The nodes around an operation. The first overall input, which nothing reads, is named like no
parameter; it is there for operations without parameters. -/
def nodesAround (name : String) (o : Operation) : List (SlotKey × SlotAttrs) :=
  (SlotKey.input returnSlot, SlotAttrs.mk (some .int) none none) ::
    o.parameters.map (fun p => (SlotKey.input p.1, SlotAttrs.mk (some p.2) none none)) ++
    o.parameters.map (fun p => (SlotKey.parameter 1 name p.1, SlotAttrs.empty)) ++
    [(SlotKey.returnValue 1 name, SlotAttrs.empty),
      (SlotKey.output 2 "out", SlotAttrs.mk (some o.returns) none none)]

/-- The connections around an operation. -/
def edgesAround (name : String) (o : Operation) : List (SlotKey × SlotKey) :=
  o.parameters.map (fun p => (SlotKey.input p.1, SlotKey.parameter 1 name p.1)) ++
    [(SlotKey.returnValue 1 name, SlotKey.output 2 "out")]

/-- The smallest graph around an operation. -/
def around (name : String) (o : Operation) : PipelineGraph :=
  drawn (nodesAround name o) (edgesAround name o)

/-- What the nodes around an operation are. -/
inductive IsAround (name : String) (o : Operation) : SlotKey → SlotAttrs → Prop where
  /-- An overall input that nothing reads. -/
  | spare : IsAround name o (.input returnSlot) ⟨some .int, none, none⟩
  /-- An overall input for a parameter. -/
  | input {p : String × DataType} (m : p ∈ o.parameters) :
    IsAround name o (.input p.1) ⟨some p.2, none, none⟩
  /-- A parameter. -/
  | parameter {p : String × DataType} (m : p ∈ o.parameters) :
    IsAround name o (.parameter 1 name p.1) .empty
  /-- The return value. -/
  | result : IsAround name o (.returnValue 1 name) .empty
  /-- The overall output. -/
  | output : IsAround name o (.output 2 "out") ⟨some o.returns, none, none⟩

namespace IsAround

variable {key : SlotKey} {attrs : SlotAttrs} (a : IsAround name o key attrs)
include a

/-- There are three steps. -/
theorem step_le : key.step ≤ 2 := by
  cases a with
  | spare => exact Nat.zero_le 2
  | input => exact Nat.zero_le 2
  | parameter => exact Nat.le_succ 1
  | result => exact Nat.le_succ 1
  | output => exact Nat.le_refl 2

/-- What names an operation is at the middle step, and names this one. -/
theorem operation_eq : key.operation = if key.step = 1 then some name else none := by
  cases a with
  | spare => rfl
  | input => rfl
  | parameter => rfl
  | result => rfl
  | output => rfl

/-- There are no literals. -/
theorem fixed?_eq_none : attrs.fixed? = none := by
  cases a with
  | spare => rfl
  | input => rfl
  | parameter => rfl
  | result => rfl
  | output => rfl

/-- Types are given to overall inputs and outputs, and to nothing else. -/
theorem isSome_datatype?_iff : attrs.datatype?.isSome ↔ key.step ≠ 1 := by
  cases a with
  | spare => simp [SlotKey.input]
  | input => simp [SlotKey.input]
  | parameter => simp [SlotKey.parameter, SlotAttrs.empty]
  | result => simp [SlotKey.returnValue, SlotAttrs.empty]
  | output => simp [SlotKey.output]

end IsAround

/-- The listed nodes are those around the operation. -/
theorem mem_nodesAround_iff {key : SlotKey} {attrs : SlotAttrs} :
    (key, attrs) ∈ nodesAround name o ↔ IsAround name o key attrs := by
  constructor
  · intro m
    simp only [nodesAround, List.cons_append, List.append_assoc, List.mem_cons, List.mem_append,
      List.mem_map, List.not_mem_nil, or_false, Prod.mk.injEq] at m
    obtain ⟨rfl, rfl⟩ | ⟨p, m, rfl, rfl⟩ | ⟨p, m, rfl, rfl⟩ | ⟨rfl, rfl⟩ | ⟨rfl, rfl⟩ := m
    · exact .spare
    · exact .input m
    · exact .parameter m
    · exact .result
    · exact .output
  · intro h
    simp only [nodesAround, List.cons_append, List.append_assoc, List.mem_cons, List.mem_append,
      List.mem_map, List.not_mem_nil, or_false]
    cases h with
    | spare => exact .inl rfl
    | input m => exact .inr (.inl ⟨_, m, rfl⟩)
    | parameter m => exact .inr (.inr (.inl ⟨_, m, rfl⟩))
    | result => exact .inr (.inr (.inr (.inl rfl)))
    | output => exact .inr (.inr (.inr (.inr rfl)))

/-- No key around an operation is repeated, unless a parameter is named like a return value. -/
theorem nodup_keys_nodesAround (distinct : (Keyed.keys o.parameters).Nodup)
    (plain : ∀ slot ∈ Keyed.keys o.parameters, ¬ SpelledReturn slot) :
    (Keyed.keys (nodesAround name o)).Nodup := by
  have unnamed : returnSlot ∉ Keyed.keys o.parameters := fun m => plain _ m (.inl rfl)
  have listed : Keyed.keys (nodesAround name o) =
      (returnSlot :: Keyed.keys o.parameters).map SlotKey.input ++
        ((Keyed.keys o.parameters ++ [returnSlot]).map (SlotKey.parameter 1 name) ++
          [SlotKey.output 2 "out"]) := by
    simp only [Keyed.keys, nodesAround, List.map_cons, List.map_append, List.map_map,
      List.append_assoc, List.cons_append, List.map_nil, List.nil_append]
    rfl
  have inputs : ((returnSlot :: Keyed.keys o.parameters).map SlotKey.input).Nodup :=
    (List.nodup_cons.2 ⟨unnamed, distinct⟩).map fun a b e => congrArg SlotKey.slot e
  have slots : ((Keyed.keys o.parameters ++ [returnSlot]).map (SlotKey.parameter 1 name)).Nodup :=
    (List.nodup_append.2 ⟨distinct, List.nodup_singleton _, by
      rintro slot m _ m' rfl
      exact unnamed (List.mem_singleton.1 m' ▸ m)⟩).map fun a b e => congrArg SlotKey.slot e
  -- the three groups are told apart by their steps
  rw [listed]
  refine List.nodup_append.2 ⟨inputs, List.nodup_append.2 ⟨slots, List.nodup_singleton _, ?_⟩, ?_⟩
  · rintro key m _ m' rfl
    obtain ⟨slot, -, rfl⟩ := List.mem_map.1 m
    cases List.mem_singleton.1 m'
  · rintro key m _ m' rfl
    obtain ⟨slot, -, rfl⟩ := List.mem_map.1 m
    rcases List.mem_append.1 m' with m' | m'
    · obtain ⟨slot', -, e⟩ := List.mem_map.1 m'
      cases e
    · cases List.mem_singleton.1 m'

/-- The connections around an operation are between its nodes. -/
theorem mem_keys_of_mem_edgesAround {edge : SlotKey × SlotKey} (m : edge ∈ edgesAround name o) :
    edge.1 ∈ Keyed.keys (nodesAround name o) ∧ edge.2 ∈ Keyed.keys (nodesAround name o) := by
  have there : ∀ {key attrs}, IsAround name o key attrs →
      key ∈ Keyed.keys (nodesAround name o) := fun h =>
    List.mem_map_of_mem (mem_nodesAround_iff.2 h)
  rcases List.mem_append.1 m with m | m
  · obtain ⟨p, m', rfl⟩ := List.mem_map.1 m
    exact ⟨there (.input m'), there (.parameter m')⟩
  · rw [List.mem_singleton.1 m]
    exact ⟨there .result, there .output⟩

/-- No connection around an operation is repeated. -/
theorem nodup_edgesAround (distinct : (Keyed.keys o.parameters).Nodup) :
    (edgesAround name o).Nodup := by
  have targets : ((edgesAround name o).map fun edge => (edge.2.step, edge.2.slot)).Nodup := by
    have listed : ((edgesAround name o).map fun edge => (edge.2.step, edge.2.slot)) =
        (Keyed.keys o.parameters).map (Prod.mk 1) ++ [(2, "out")] := by
      simp only [Keyed.keys, edgesAround, List.map_append, List.map_map, List.map_cons,
        List.map_nil]
      rfl
    rw [listed]
    refine List.nodup_append.2 ⟨distinct.map fun a b e => congrArg Prod.snd e,
      List.nodup_singleton _, ?_⟩
    rintro target m _ m' rfl
    obtain ⟨slot, -, rfl⟩ := List.mem_map.1 m
    cases List.mem_singleton.1 m'
  exact List.Nodup.of_map _ targets

/-- The parameters of an operation have different names, none of them that of a return value, and it
is registered. -/
structure Usable (r : Registry) (name : String) (o : Operation) : Prop where
  /-- It is registered. -/
  found : r.operation? name = some o
  /-- The names are different. -/
  distinct : (Keyed.keys o.parameters).Nodup
  /-- None is that of a return value. -/
  plain : ∀ slot ∈ Keyed.keys o.parameters, ¬ SpelledReturn slot

namespace Usable

variable {key : SlotKey} {attrs : SlotAttrs} (h : Usable r name o)
include h

/-- The graph around an operation has the nodes and connections that were listed. -/
theorem around_eq : (∀ node, node ∈ (around name o).nodes ↔ node ∈ nodesAround name o) ∧
    (around name o).edges = edgesAround name o :=
  drawn_eq (nodup_keys_nodesAround h.distinct h.plain) (fun _ => mem_keys_of_mem_edgesAround)
    (nodup_edgesAround h.distinct)

/-- The nodes of the graph are those around the operation. -/
theorem mem_nodes_iff : (key, attrs) ∈ (around name o).nodes ↔ IsAround name o key attrs :=
  (h.around_eq.1 _).trans mem_nodesAround_iff

/-- The keys of the graph are those around the operation. -/
theorem mem_keys_iff : key ∈ (around name o).keys ↔ ∃ attrs, IsAround name o key attrs := by
  constructor
  · intro m
    obtain ⟨⟨_, attrs⟩, there, rfl⟩ := List.mem_map.1 m
    exact ⟨attrs, h.mem_nodes_iff.1 there⟩
  · rintro ⟨attrs, around⟩
    exact List.mem_map_of_mem (h.mem_nodes_iff.2 around)

/-- A parameter is fed from the overall input for it, and the overall output from the return
value. -/
theorem mem_edges_iff {edge : SlotKey × SlotKey} : edge ∈ (around name o).edges ↔
    (∃ p ∈ o.parameters, edge = (.input p.1, .parameter 1 name p.1)) ∨
      edge = (.returnValue 1 name, .output 2 "out") := by
  rw [h.around_eq.2, edgesAround, List.mem_append, List.mem_singleton, List.mem_map]
  simp only [eq_comm]

/-- What belongs to an operation is at the middle step and belongs to this one. -/
theorem belongs_iff (a : IsAround name o key attrs) {o' : Operation} :
    Belongs r key o' ↔ key.step = 1 ∧ o' = o := by
  unfold Belongs
  rw [a.operation_eq]
  split
  · next inner => simp [inner, h.found, eq_comm]
  · next outer => simp [outer]

/-- The parameters of the operation have their types. -/
theorem declares {p : String × DataType} (m : p ∈ o.parameters) : o.Declares p.1 p.2 :=
  .parameter (h.plain p.1 (List.mem_map_of_mem m)) (Keyed.lookup_of_mem_of_nodup h.distinct m)

/-- The parameters of the operation are what is wired at its step. -/
theorem wiredSlots_around : ((around name o).wiredSlots 1).Perm (Keyed.keys o.parameters) := by
  have sound := (reachable_drawn (nodesAround name o) (edgesAround name o)).sound
  have member : ∀ key, key ∈ ((around name o).keysAt 1).filter (fun key => !key.isReturn) ↔
      ∃ slot ∈ Keyed.keys o.parameters, key = .parameter 1 name slot := by
    intro key
    simp only [keysAt, List.mem_filter, beq_iff_eq, Bool.not_eq_true', h.mem_keys_iff]
    constructor
    · rintro ⟨⟨⟨attrs, a⟩, step⟩, plain⟩
      cases a with
      | parameter m => exact ⟨_, List.mem_map_of_mem m, rfl⟩
      | result => simp at plain
      | spare => cases step
      | input => cases step
      | output => cases step
    · rintro ⟨slot, m, rfl⟩
      obtain ⟨p, m', rfl⟩ := List.mem_map.1 m
      refine ⟨⟨⟨_, .parameter m'⟩, rfl⟩, ?_⟩
      exact SlotKey.isReturn_eq_false_iff.2 (h.plain p.1 m)
  have once : ((around name o).wiredSlots 1).Nodup := by
    refine ((sound.nodup_keys.filter _).filter _).map_on fun key m key' m' e => ?_
    obtain ⟨slot, -, rfl⟩ := (member key).1 m
    obtain ⟨slot', -, rfl⟩ := (member key').1 m'
    exact congrArg (SlotKey.parameter 1 name) e
  refine (List.perm_ext_iff_of_nodup once h.distinct).2 fun slot => ?_
  unfold wiredSlots
  rw [List.mem_map]
  constructor
  · rintro ⟨key, m, rfl⟩
    obtain ⟨slot, there, rfl⟩ := (member key).1 m
    exact there
  · exact fun m => ⟨.parameter 1 name slot, (member _).2 ⟨slot, m, rfl⟩, rfl⟩

/-- Overall inputs and outputs are at the ends. -/
theorem atEnd_iff (a : IsAround name o key attrs) : (around name o).AtEnd key ↔ key.step ≠ 1 := by
  have own := a.step_le
  constructor
  · rintro (first | highest)
    · omega
    · have : 2 ≤ key.step := highest _ (h.mem_keys_iff.2 ⟨_, .output⟩)
      omega
  · intro outer
    by_cases first : key.step = 0
    · exact .inl first
    · refine .inr fun other m => ?_
      obtain ⟨_, a'⟩ := h.mem_keys_iff.1 m
      have := a'.step_le
      omega

/-- Each slot accepts what feeds it. -/
theorem accepted_around (numeric : o.Numeric) {edge : SlotKey × SlotKey}
    (m : edge ∈ (around name o).edges) : ∃ source target,
      (around name o).HasType r edge.1 source ∧ (around name o).HasType r edge.2 target ∧
        target.accepts source := by
  have inner : ∀ {key attrs}, IsAround name o key attrs → key.step = 1 → Belongs r key o :=
    fun a step => (h.belongs_iff a).2 ⟨step, rfl⟩
  rcases h.mem_edges_iff.1 m with ⟨p, there, rfl⟩ | rfl
  · have a : IsAround name o (.parameter 1 name p.1) .empty := .parameter there
    refine ⟨p.2, p.2.unannotated, .given (h.mem_nodes_iff.2 (.input there)) rfl rfl,
      .declared (h.mem_keys_iff.2 ⟨_, a⟩) (inner a rfl) (h.declares there), ?_⟩
    rw [DataType.unannotated_accepts]
    exact DataType.accepts_self (numeric.parameters p there)
  · have a : IsAround name o (.returnValue 1 name) .empty := .result
    refine ⟨o.returns.unannotated, o.returns,
      .declared (h.mem_keys_iff.2 ⟨_, a⟩) (inner a rfl) .result,
      .given (h.mem_nodes_iff.2 .output) rfl rfl, ?_⟩
    rw [DataType.accepts_unannotated]
    exact DataType.accepts_self numeric.returns

/-- The graph around a numeric operation is well-formed. -/
theorem wellFormed_around (numeric : o.Numeric) : (around name o).WellFormed r where
  nonempty := List.ne_nil_of_mem (h.mem_nodes_iff.2 .output)
  ends_bare key m atEnd := by
    obtain ⟨_, a⟩ := h.mem_keys_iff.1 m
    rw [a.operation_eq, if_neg ((h.atEnd_iff a).1 atEnd)]
  inner_registered key m inner := by
    obtain ⟨_, a⟩ := h.mem_keys_iff.1 m
    rw [h.atEnd_iff a, not_not] at inner
    exact ⟨o, (h.belongs_iff a).2 ⟨inner, rfl⟩⟩
  returns_resolve key m o' belongs spelled := by
    obtain ⟨_, a⟩ := h.mem_keys_iff.1 m
    obtain ⟨inner, rfl⟩ := (h.belongs_iff a).1 belongs
    cases a with
    | parameter there => exact ⟨_, h.declares there⟩
    | result => exact ⟨_, .result⟩
    | spare => cases inner
    | input => cases inner
    | output => cases inner
  given_types key attrs m o' belongs t _ found given := by
    have a := h.mem_nodes_iff.1 m
    have outer := a.isSome_datatype?_iff.1 (by rw [given]; rfl)
    exact absurd ((h.belongs_iff a).1 belongs).1 outer
  boundary_typed key attrs m bare := by
    have a := h.mem_nodes_iff.1 m
    refine Option.isSome_iff_exists.1 (a.isSome_datatype?_iff.2 fun inner => ?_)
    rw [a.operation_eq, if_pos inner] at bare
    cases bare
  one_operation key m key' m' same := by
    obtain ⟨_, a⟩ := h.mem_keys_iff.1 m
    obtain ⟨_, a'⟩ := h.mem_keys_iff.1 m'
    rw [a.operation_eq, a'.operation_eq, same]
  parameters_wired key m o' belongs := by
    obtain ⟨_, a⟩ := h.mem_keys_iff.1 m
    obtain ⟨inner, rfl⟩ := (h.belongs_iff a).1 belongs
    rw [inner]
    exact h.wiredSlots_around
  literals_conform key attrs m v fixed := by
    rw [(h.mem_nodes_iff.1 m).fixed?_eq_none] at fixed
    cases fixed
  contiguous key m step below := by
    obtain ⟨_, a⟩ := h.mem_keys_iff.1 m
    have := a.step_le
    obtain rfl | rfl | rfl : step = 0 ∨ step = 1 ∨ step = 2 := by omega
    · exact ⟨_, h.mem_keys_iff.2 ⟨_, .spare⟩, rfl⟩
    · exact ⟨_, h.mem_keys_iff.2 ⟨_, .result⟩, rfl⟩
    · exact ⟨_, h.mem_keys_iff.2 ⟨_, .output⟩, rfl⟩
  forward edge m := by
    rcases h.mem_edges_iff.1 m with ⟨p, -, rfl⟩ | rfl
    · exact Nat.zero_lt_one
    · exact Nat.lt_succ_self 1
  fed key attrs m behind plain _ := by
    cases h.mem_nodes_iff.1 m with
    | spare => exact absurd rfl behind
    | input => exact absurd rfl behind
    | result => exact absurd (.inl rfl) plain
    | @parameter p listed =>
      refine ⟨.input p.1, h.mem_edges_iff.2 (.inl ⟨p, listed, rfl⟩), fun source there => ?_⟩
      rcases h.mem_edges_iff.1 there with ⟨p', -, e⟩ | e
      · have slot : p.1 = p'.1 := congrArg (fun edge => edge.2.slot) e
        rw [slot]
        exact congrArg Prod.fst e
      · cases congrArg (fun edge => edge.2.step) e
    | output =>
      refine ⟨.returnValue 1 name, h.mem_edges_iff.2 (.inr rfl), fun source there => ?_⟩
      rcases h.mem_edges_iff.1 there with ⟨p', -, e⟩ | e
      · cases congrArg (fun edge => edge.2.step) e
      · exact congrArg Prod.fst e
  accepted edge m := h.accepted_around numeric m

/-- The graph around an operation uses it alone. -/
theorem runsAlone_around : (around name o).RunsAlone name o where
  inner key m named := by
    obtain ⟨_, a⟩ := h.mem_keys_iff.1 m
    rw [a.operation_eq] at named ⊢
    split at named
    · next inner => exact ⟨inner, if_pos inner⟩
    · exact absurd rfl named
  input := ⟨returnSlot, h.mem_keys_iff.2 ⟨_, .spare⟩⟩
  fed p m := ⟨p.1, _, h.mem_nodes_iff.2 (.input m), rfl, h.mem_edges_iff.2 (.inl ⟨p, m, rfl⟩)⟩
  output := by
    refine ⟨"out", _, h.mem_nodes_iff.2 .output, rfl, h.mem_edges_iff.2 (.inr rfl), ?_⟩
    intro key m highest
    obtain ⟨_, a⟩ := h.mem_keys_iff.1 m
    cases a with
    | output => rfl
    | spare => cases highest
    | input => cases highest
    | parameter => exact absurd highest (Nat.not_succ_le_self 1)
    | result => exact absurd highest (Nat.not_succ_le_self 1)

end Usable

/-- A registered numeric operation can be used in a pipeline, alone, exactly if none of its
parameters is named like a return value. -/
theorem exists_runsAlone_iff (built : r.Built) (found : r.operation? name = some o)
    (numeric : o.Numeric) :
    (∃ g : PipelineGraph, g.Reachable ∧ g.RunsAlone name o ∧ ∃ p, g.validate r = .ok p) ↔
      ∀ slot ∈ Keyed.keys o.parameters, ¬ SpelledReturn slot := by
  constructor
  · rintro ⟨g, reachable, alone, p, accepted⟩ slot m
    have w := reachable.sound.wellFormed_of_validate alone.stepsBelow accepted
    obtain ⟨p, there, rfl⟩ := List.mem_map.1 m
    obtain ⟨source, attrs, -, -, edge⟩ := alone.fed p there
    have node := (reachable.sound.ends _ edge).2
    -- the slot is among those of its step that are not spelled like return values
    have wired := w.parameters_wired _ node o ⟨name, rfl, found⟩
    obtain ⟨key, among, same⟩ := List.mem_map.1 (wired.mem_iff.2 m)
    have plain : key.isReturn = false := by simpa using (List.mem_filter.1 among).2
    intro spelled
    rw [← same] at spelled
    have : key.isReturn = true := isReturnSlot_iff.2 spelled
    rw [plain] at this
    cases this
  · intro plain
    have usable : Usable r name o := ⟨found, (built.sound found).2.wired, plain⟩
    have alone := usable.runsAlone_around
    exact ⟨around name o, reachable_drawn _ _, alone,
      (usable.wellFormed_around numeric).exists_validate (reachable_drawn _ _).sound
        alone.stepsBelow⟩

end PipelineGraph

end Pipewright
