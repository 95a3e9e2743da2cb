import Pipewright.Proofs.Unit.Loaded

/-! # Graphs whose connections are drawn in another order
The order in which connections were drawn decides only which of several connections at fault is
named. It does not decide whether a graph is valid, and the unit of a valid graph is the same. -/

namespace Pipewright

/-- Two faults are the same, or of one of the two kinds that name the first connection at fault. -/
inductive GraphFault.Matches : GraphFault → GraphFault → Prop where
  /-- They are the same. -/
  | same (fault : GraphFault) : Matches fault fault
  /-- Each names a connection that does not go forward. -/
  | backward (source target source' target' : SlotKey) :
    Matches (.backwardEdge source target) (.backwardEdge source' target')
  /-- Each names a connection whose ends do not fit. -/
  | mismatch (source target source' target' : SlotKey) (t u t' u' : DataType) :
    Matches (.edgeTypeMismatch source target t u) (.edgeTypeMismatch source' target' t' u')

/-- What is found first in a list is found in any order of it, though maybe not first. -/
theorem exists_findSome?_of_perm {α β : Type} {f : α → Option β} {as bs : List α}
    (h : as.Perm bs) {b : β} (found : as.findSome? f = some b) :
    ∃ b', bs.findSome? f = some b' ∧ ∃ a ∈ as, ∃ a' ∈ bs, f a = some b ∧ f a' = some b' := by
  obtain ⟨a, m, e⟩ := List.exists_of_findSome?_eq_some found
  have some' : (bs.findSome? f).isSome = true :=
    List.findSome?_isSome_iff.2 ⟨a, h.mem_iff.1 m, by rw [e]; rfl⟩
  obtain ⟨b', found'⟩ := Option.isSome_iff_exists.1 some'
  obtain ⟨a', m', e'⟩ := List.exists_of_findSome?_eq_some found'
  exact ⟨b', found', a, m, a', m', e, e'⟩

namespace PipelineGraph

/-- A graph has the same nodes as another one with the same attributes, and the same connections,
maybe drawn in another order. -/
structure Redrawn (g h : PipelineGraph) : Prop where
  /-- The nodes are the same. -/
  nodes : g.nodes = h.nodes
  /-- The connections are the same. -/
  edges : g.edges.Perm h.edges

variable {g h : PipelineGraph} {r : Registry}

namespace Redrawn

/-- Drawing the connections in the first order again. -/
theorem symm (same : g.Redrawn h) : h.Redrawn g := ⟨same.nodes.symm, same.edges.symm⟩

/-! ## What feeds a slot -/

/-- As many connections end at a slot. -/
theorem inDegree_eq (same : g.Redrawn h) (key : SlotKey) : g.inDegree key = h.inDegree key :=
  (same.edges.filter _).length_eq

/-- A slot has the same producer. -/
theorem producer?_eq (same : g.Redrawn h) (key : SlotKey) : g.producer? key = h.producer? key := by
  -- there is a producer only where exactly one connection ends, and a list of one has one order
  have each : ∀ {g h : PipelineGraph}, g.Redrawn h → ∀ source, g.producer? key = some source →
      h.producer? key = some source := by
    intro g h same source fed
    rw [producer?_eq_some_iff] at fed ⊢
    have perm : (g.inEdges key).Perm (h.inEdges key) := same.edges.filter _
    rw [fed] at perm
    exact perm.singleton_eq.symm
  exact Option.ext fun source => ⟨each same source, each same.symm source⟩

/-- A slot is bound to the same. -/
theorem binding_eq (same : g.Redrawn h) : g.binding = h.binding := by
  have literals : ∀ key, g.fixed? key = h.fixed? key := by
    intro key
    unfold fixed? attrs?
    rw [same.nodes]
  exact funext fun _ => binding_congr (p := fun _ => True) (fun _ _ _ _ => trivial)
    (fun _ => literals _) (fun _ _ => same.producer?_eq _) trivial

/-! ## Validation -/

/-- The types that are filled in do not depend on connections. -/
theorem fillTypes_eq (same : g.Redrawn h) :
    (∃ fault, g.fillTypes r = .error fault ∧ h.fillTypes r = .error fault) ∨
      ∃ g' h', g.fillTypes r = .ok g' ∧ h.fillTypes r = .ok h' ∧ g'.Redrawn h' := by
  unfold fillTypes
  rw [same.nodes]
  cases h.nodes.mapM (fillNode r) with
  | error fault => exact .inl ⟨fault, rfl, rfl⟩
  | ok nodes => exact .inr ⟨_, _, rfl, rfl, rfl, same.edges⟩

/-- Looking for a connection at fault, none is found in both graphs, or one in each. -/
theorem findSome?_edges (same : g.Redrawn h) (f : SlotKey × SlotKey → Option GraphFault) :
    (g.edges.findSome? f = none ∧ h.edges.findSome? f = none) ∨
      ∃ a b fault fault', f a = some fault ∧ f b = some fault' ∧
        g.edges.findSome? f = some fault ∧ h.edges.findSome? f = some fault' := by
  cases found : g.edges.findSome? f with
  | none =>
    refine .inl ⟨rfl, List.findSome?_eq_none_iff.2 fun edge m => ?_⟩
    exact List.findSome?_eq_none_iff.1 found edge (same.edges.mem_iff.2 m)
  | some fault =>
    obtain ⟨fault', found', a, -, b, -, e, e'⟩ := exists_findSome?_of_perm same.edges found
    exact .inr ⟨a, b, fault, fault', e, e', rfl, found'⟩

/-- A connection goes backward in both graphs or in none. -/
theorem directionFault?_matches (same : g.Redrawn h) :
    Option.Rel GraphFault.Matches (g.edges.findSome? directionFault?)
      (h.edges.findSome? directionFault?) := by
  obtain ⟨e, e'⟩ | ⟨a, b, fault, fault', e, e', found, found'⟩ :=
    same.findSome?_edges directionFault?
  · rw [e, e']
    exact .none
  · rw [found, found']
    have backward : ∀ {edge fault}, directionFault? edge = some fault →
        fault = .backwardEdge edge.1 edge.2 := by
      intro edge fault e
      unfold directionFault? at e
      split at e <;> cases e
      rfl
    rw [backward e, backward e']
    exact .some (.backward ..)

/-- A connection does not fit in both graphs or in none. -/
theorem acceptanceFault?_matches (same : g.Redrawn h) :
    Option.Rel GraphFault.Matches (g.edges.findSome? g.acceptanceFault?)
      (h.edges.findSome? h.acceptanceFault?) := by
  have check : g.acceptanceFault? = h.acceptanceFault? := by
    funext edge
    unfold acceptanceFault? datatype? attrs?
    rw [same.nodes]
  rw [check]
  obtain ⟨e, e'⟩ | ⟨a, b, fault, fault', e, e', found, found'⟩ :=
    same.findSome?_edges h.acceptanceFault?
  · rw [e, e']
    exact .none
  · rw [found, found']
    have mismatch : ∀ {edge fault}, h.acceptanceFault? edge = some fault →
        ∃ t u, fault = .edgeTypeMismatch edge.1 edge.2 t u := by
      intro edge fault e
      unfold acceptanceFault? at e
      split at e
      · split at e <;> cases e
        exact ⟨_, _, rfl⟩
      · cases e
    obtain ⟨t, u, rfl⟩ := mismatch e
    obtain ⟨t', u', rfl⟩ := mismatch e'
    exact .some (.mismatch ..)

/-- A slot lacks a producer in both graphs or in none. -/
theorem producerFault?_eq (same : g.Redrawn h) : g.producerFault? = h.producerFault? := by
  funext node
  unfold producerFault?
  rw [same.inDegree_eq]

end Redrawn

/-- Of two checks one after the other, the first one that fails decides. -/
theorem rel_or {a a' b b' : Option GraphFault} (first : Option.Rel GraphFault.Matches a a')
    (second : Option.Rel GraphFault.Matches b b') :
    Option.Rel GraphFault.Matches (a.or b) (a'.or b') := by
  cases first with
  | none => exact second
  | some found => exact .some found

/-- A check that finds the same in both graphs. -/
theorem rel_same (a : Option GraphFault) : Option.Rel GraphFault.Matches a a := by
  cases a with
  | none => exact .none
  | some fault => exact .some (.same fault)

namespace Redrawn

/-- A graph whose types are filled in has a fault exactly when the other one has, of the same
kind. -/
theorem filledFault?_matches (same : g.Redrawn h) (r : Registry) :
    Option.Rel GraphFault.Matches (g.filledFault? r) (h.filledFault? r) := by
  have groups : g.groups = h.groups := by
    unfold groups keys
    rw [same.nodes]
  have skipped : g.skippedFault? = h.skippedFault? := by
    unfold skippedFault? usedSteps
    rw [groups]
  -- all checks but those of directions and of types come to the same
  unfold filledFault?
  rw [same.nodes, groups, skipped, same.producerFault?_eq]
  exact rel_or (rel_same _) <| rel_or (rel_same _) <| rel_or (rel_same _) <| rel_or (rel_same _) <|
    rel_or same.directionFault?_matches <| rel_or (rel_same _) same.acceptanceFault?_matches

/-- Both graphs are valid, and are then filled in alike, or neither is. -/
theorem validate_matches (same : g.Redrawn h) (r : Registry) :
    (∃ fault fault', g.validate r = .error fault ∧ h.validate r = .error fault' ∧
      fault.Matches fault') ∨
    ∃ p q, g.validate r = .ok p ∧ h.validate r = .ok q ∧ p.graph.Redrawn q.graph := by
  have outline : g.outlineFault? r = h.outlineFault? r := by
    unfold outlineFault? keys namingFault? lastStep numSteps keys
    rw [same.nodes]
  unfold validate
  rw [outline]
  cases h.outlineFault? r with
  | some fault => exact .inl ⟨fault, fault, rfl, rfl, .same fault⟩
  | none =>
    obtain ⟨fault, e, e'⟩ | ⟨g', h', e, e', filled⟩ := same.fillTypes_eq (r := r)
    · rw [e, e']
      exact .inl ⟨fault, fault, rfl, rfl, .same fault⟩
    · rw [e, e']
      have verdict := filled.filledFault?_matches r
      dsimp only
      generalize g'.filledFault? r = fault? at verdict ⊢
      generalize h'.filledFault? r = fault?' at verdict ⊢
      cases verdict with
      | none => exact .inr ⟨⟨g'⟩, ⟨h'⟩, rfl, rfl, filled⟩
      | some found => exact .inl ⟨_, _, rfl, rfl, found⟩

/-! ## The unit -/

/-- The statements of the steps are the same. -/
theorem innerStmts_eq (same : g.Redrawn h) (r : Registry) : g.innerStmts r = h.innerStmts r := by
  have binding := same.binding_eq
  obtain ⟨nodes, edges⟩ := g
  obtain ⟨nodes', edges'⟩ := h
  obtain rfl : nodes = nodes' := same.nodes
  -- what is left of the difference is seen through bindings only, and these are the same
  have stepStmts : (⟨nodes, edges⟩ : PipelineGraph).stepStmts r =
      (⟨nodes, edges'⟩ : PipelineGraph).stepStmts r := by
    funext keys
    unfold PipelineGraph.stepStmts arguments
    rw [binding]
    rfl
  unfold innerStmts
  rw [stepStmts]
  rfl

/-- The piece that runs the pipeline is the same. -/
theorem runPiece_eq (same : g.Redrawn h) (name : String) (r : Registry) (s : Settings) :
    runPiece name ⟨g⟩ r s = runPiece name ⟨h⟩ r s := by
  have binding := same.binding_eq
  have steps := same.innerStmts_eq r
  obtain ⟨nodes, edges⟩ := g
  obtain ⟨nodes', edges'⟩ := h
  obtain rfl : nodes = nodes' := same.nodes
  unfold runPiece
  simp only [binding, steps]
  rfl

/-- The unit is the same, or what keeps it from being generated. -/
theorem unitSource_eq (same : g.Redrawn h) (name : String) (r : Registry) (s : Settings)
    (hasIcon : Bool) : unitSource name ⟨g⟩ r s hasIcon = unitSource name ⟨h⟩ r s hasIcon := by
  have run := same.runPiece_eq name r s
  obtain ⟨nodes, edges⟩ := g
  obtain ⟨nodes', edges'⟩ := h
  obtain rfl : nodes = nodes' := same.nodes
  unfold unitSource unitPieces
  rw [run]
  rfl

end Redrawn

/-- The order in which connections were drawn does not matter: a graph and the same graph drawn in
another order are both rejected, for the same fault unless that names the first of several
connections, or both are valid, and then every unit that is generated from one is the unit of the
other, and whatever keeps one from being generated keeps the other. -/
theorem validate_redrawn (same : g.Redrawn h) (r : Registry) :
    (∃ fault fault', g.validate r = .error fault ∧ h.validate r = .error fault' ∧
      fault.Matches fault') ∨
    ∃ p q, g.validate r = .ok p ∧ h.validate r = .ok q ∧ ∀ (name : String) (r' : Registry)
      (s : Settings) (hasIcon : Bool),
        unitSource name p r' s hasIcon = unitSource name q r' s hasIcon := by
  obtain rejected | ⟨⟨p⟩, ⟨q⟩, valid, valid', filled⟩ := same.validate_matches r
  · exact .inl rejected
  · exact .inr ⟨⟨p⟩, ⟨q⟩, valid, valid', fun name r' s hasIcon =>
      filled.unitSource_eq name r' s hasIcon⟩

/-- The two connections of a pipeline drawn in the other order make the same unit. -/
theorem validate_redrawn_boxed :
    let redrawn : PipelineGraph := ⟨boxedOnce.nodes, boxedOnce.edges.reverse⟩
    redrawn.edges ≠ boxedOnce.edges ∧ boxedOnce.Redrawn redrawn ∧
      ∃ q, redrawn.validate boxes = .ok q ∧
        ∀ name s hasIcon,
          unitSource name boxed boxes s hasIcon = unitSource name q boxes s hasIcon := by
  intro redrawn
  have same : boxedOnce.Redrawn redrawn := ⟨rfl, (List.reverse_perm _).symm⟩
  refine ⟨by decide +kernel, same, ?_⟩
  have valid : boxedOnce.validate boxes = .ok boxed := eq_ok_of_isOk (by decide +kernel) _
  obtain ⟨fault, fault', rejected, -⟩ | ⟨p, q, accepted, accepted', alike⟩ :=
    validate_redrawn same boxes
  · rw [valid] at rejected
    cases rejected
  · rw [valid] at accepted
    cases accepted
    exact ⟨q, accepted', fun name s hasIcon => alike name boxes s hasIcon⟩

end PipelineGraph

end Pipewright
