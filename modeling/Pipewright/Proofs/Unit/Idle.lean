import Pipewright.Proofs.Unit.Growth

/-! # Connections and literals that count for nothing
A valid graph may have connections that end at a slot with a literal, or at a return value. No slot
takes its value from one of them, and without them the graph is valid and has the same unit. Every
other connection is the one that the slot at its end takes its value from. Nor is any slot bound to
the literal of an overall input or of a return value. -/

namespace Pipewright.PipelineGraph

variable {g filled : PipelineGraph} {r : Registry} {key : SlotKey} {name : String} {s : Settings}

/-- A connection counts for nothing if it ends at a return value or at a slot with a literal. -/
def isIdle (g : PipelineGraph) (edge : SlotKey × SlotKey) : Bool :=
  edge.2.isReturn || (g.fixed? edge.2).isSome

/-- A graph without the connections that count for nothing. -/
def pruned (g : PipelineGraph) : PipelineGraph :=
  { g with edges := g.edges.filter fun edge => !g.isIdle edge }

/-! ## What feeds a slot -/

/-- At a slot that takes a value and has no literal the same connections end. -/
theorem inEdges_pruned (plain : key.isReturn = false) (fixed : g.fixed? key = none) :
    g.pruned.inEdges key = g.inEdges key := by
  unfold inEdges pruned
  rw [List.filter_filter]
  refine List.filter_congr fun edge _ => ?_
  by_cases ends : edge.2 = key
  · simp [isIdle, ends, plain, fixed]
  · simp [ends]

/-- Without idle connections every connection is the one that feeds the slot at its end. -/
theorem Wired.fedBy_pruned (w : g.Wired r) {source : SlotKey}
    (m : (source, key) ∈ g.pruned.edges) : g.pruned.FedBy key source := by
  obtain ⟨there, busy⟩ := List.mem_filter.1 m
  simp only [isIdle, Bool.not_eq_true', Bool.or_eq_false_iff, Option.isSome_eq_false_iff,
    Option.isNone_iff_eq_none] at busy
  obtain ⟨plain, fixed⟩ := busy
  have inner : key.step ≠ 0 := by
    have before : source.step < key.step := w.forward _ there
    omega
  have spelled := SlotKey.isReturn_eq_false_iff.1 plain
  obtain ⟨other, fed⟩ := w.fed key (w.sound.ends _ there).2 inner spelled fixed
  -- the producer is the only one whose connection ends at the slot
  rw [producer?_eq_some_iff] at fed
  have m' : (source, key) ∈ g.inEdges key := List.mem_filter.2 ⟨there, by simp⟩
  rw [fed, List.mem_singleton] at m'
  refine ⟨fixed, ?_⟩
  rw [producer?_eq_some_iff, inEdges_pruned plain fixed, fed, m']

/-- Slots that are no return values are bound to the same. -/
theorem binding_pruned (plain : key.isReturn = false) :
    g.pruned.binding key = g.binding key := by
  have producers : ∀ {key : SlotKey}, key.isReturn = false → g.fixed? key = none →
      g.pruned.producer? key = g.producer? key := by
    intro key plain fixed
    unfold producer?
    rw [inEdges_pruned plain fixed]
  exact binding_congr (g := g) (h := g.pruned) (p := fun key => key.isReturn = false)
    (fun _ _ _ plain => by simpa using plain) (fun _ => rfl) producers plain

/-- No slot that takes a value is bound to the literal of an overall input or of a return value. -/
theorem Wired.binding_modifyNode (w : g.Wired r) {idle : SlotKey}
    (unused : idle.step = 0 ∨ idle.isReturn = true) (f : SlotAttrs → SlotAttrs)
    (inner : key.step ≠ 0) (plain : key.isReturn = false) :
    (g.modifyNode idle f).binding key = g.binding key := by
  refine binding_congr (g := g) (h := g.modifyNode idle f)
    (p := fun key => key.step ≠ 0 ∧ key.isReturn = false) ?_ ?_ (fun _ _ => rfl) ⟨inner, plain⟩
  -- a slot that hands on is a parameter of an operation, so it is no overall input
  · intro key source _ fed bound plain
    have first := (w.inner_of_bound (w.earlier fed.2).1 bound).1
    exact ⟨by omega, by simpa using plain⟩
  · rintro key ⟨inner, plain⟩
    have other : key ≠ idle := by
      rintro rfl
      rcases unused with first | isReturn
      · exact inner first
      · rw [plain] at isReturn
        cases isReturn
    unfold fixed? attrs? modifyNode
    rw [Keyed.lookup_modify_of_ne other]

/-! ## Validation -/

/-- The types that are filled in do not depend on idle connections. -/
theorem Filling.pruned (h : Filling r g filled) : Filling r g.pruned filled.pruned where
  edges := by
    unfold PipelineGraph.pruned isIdle
    simp only [h.edges, h.fixed?_eq]
  nodes := h.nodes

/-- A graph whose types are filled in passes the checks without its idle connections. -/
theorem Sound.filledFault?_pruned (sound : Sound g) (h : g.filledFault? r = none) :
    g.pruned.filledFault? r = none := by
  have fewer : g.pruned.edges ⊆ g.edges := List.filter_subset_self _
  unfold filledFault? at h ⊢
  simp only [Option.or_eq_none_iff, List.findSome?_eq_none_iff] at h ⊢
  obtain ⟨untyped, complete, literals, skipped, forward, fed, accepted⟩ := h
  refine ⟨untyped, complete, literals, skipped, fun edge m => forward edge (fewer m),
    fun node m => ?_, fun edge m => accepted edge (fewer m)⟩
  rw [← fed node m]
  unfold producerFault? inDegree
  cases plain : node.1.isReturn with
  | true => simp
  | false =>
    cases fixed : node.2.fixed? with
    | some v => simp
    | none =>
      have fixed' : g.fixed? node.1 = none := by
        unfold fixed?
        rw [sound.attrs?_eq_some_iff.2 m, Option.bind_some, fixed]
      rw [inEdges_pruned plain fixed']

/-- A valid graph is valid without its idle connections, and is then filled in alike. -/
theorem Sound.validate_pruned (sound : Sound g) {p : ValidatedPipeline}
    (valid : g.validate r = .ok p) : g.pruned.validate r = .ok ⟨p.graph.pruned⟩ := by
  obtain ⟨outline, fill, checks⟩ := validate_eq_ok_iff.1 valid
  exact validate_eq_ok_iff.2 ⟨(outlineFault?_congr rfl).trans outline, fill.pruned,
    (fill.sound sound).filledFault?_pruned checks⟩

/-! ## The unit -/

/-- The statements of the steps are the same. -/
theorem Wired.innerStmts_pruned (w : g.Wired r) (built : r.Built) :
    g.pruned.innerStmts r = g.innerStmts r := by
  have each : ∀ keys ∈ g.innerSteps, g.pruned.stepStmts r keys = g.stepStmts r keys := by
    intro keys m
    rw [w.innerSteps_eq] at m
    obtain ⟨i, m', rfl⟩ := List.mem_map.1 m
    have inner : 1 ≤ i ∧ i < g.lastStep := by
      rw [List.mem_range'_1] at m'
      omega
    obtain ⟨o, at', found⟩ := w.exists_operationAt inner.1 inner.2
    -- the parameters of an operation are spelled like no return value
    have arguments : g.pruned.arguments i o = g.arguments i o := by
      refine mapM_congr fun parameter m => ?_
      have plain := (w.parameter_mem built at' (List.mem_map_of_mem m)).2
      rw [binding_pruned (SlotKey.isReturn_eq_false_iff.2 plain)]
    unfold stepStmts
    rw [found]
    simp only [bind, Except.bind, arguments]
    rfl
  have steps : g.pruned.innerSteps = g.innerSteps := rfl
  unfold innerStmts
  rw [steps, mapM_congr each]

/-- The piece that runs the pipeline is the same. -/
theorem Wired.runPiece_pruned (w : g.Wired r) (built : r.Built) :
    runPiece name ⟨g.pruned⟩ r s = runPiece name ⟨g⟩ r s := by
  have returned : ∀ outputs, g.orderedOutputs = .ok outputs → boundaryFault? g = none →
      outputs.mapM g.pruned.binding = outputs.mapM g.binding := by
    intro outputs ordered accepted
    have named := namedKeys_of_orderedOutputs w accepted ordered
    refine mapM_congr fun key m => binding_pruned (SlotKey.isReturn_eq_false_iff.2 ?_)
    exact not_spelledReturn_of_nameFault? (named.named key m)
  have inputs : g.pruned.orderedInputs = g.orderedInputs := rfl
  have outputs : g.pruned.orderedOutputs = g.orderedOutputs := rfl
  have boundary : boundaryFault? g.pruned = boundaryFault? g := rfl
  have groups : g.pruned.groups = g.groups := rfl
  unfold runPiece
  simp only [inputs, outputs, boundary, groups, w.innerStmts_pruned built, bind, Except.bind]
  -- what is returned is asked for only where the names of the outputs are accepted
  cases ordered : g.orderedOutputs with
  | error fault => rfl
  | ok outputs =>
    cases accepted : boundaryFault? g with
    | some fault => rfl
    | none =>
      simp only [returned outputs ordered accepted]
      rfl

/-- The unit is the same, or what keeps it from being generated. -/
theorem Wired.unitSource_pruned (w : g.Wired r) (built : r.Built) {hasIcon : Bool} :
    unitSource name ⟨g.pruned⟩ r s hasIcon = unitSource name ⟨g⟩ r s hasIcon := by
  unfold unitSource unitPieces
  rw [w.runPiece_pruned built]
  rfl

/-- Of the connections of a valid graph only those count for nothing that end at a return value or
at a slot with a literal. Without them the graph is valid, each of its connections is the one that
feeds the slot at its end, and every unit that is generated from it is the same. -/
theorem validate_without_idle (built : g.Built) (registered : r.Built) {p : ValidatedPipeline}
    (valid : g.validate r = .ok p) :
    g.pruned.validate r = .ok ⟨p.graph.pruned⟩ ∧
      (∀ edge ∈ p.graph.pruned.edges, p.graph.pruned.FedBy edge.2 edge.1) ∧
      ∀ (name : String) (s : Settings) (hasIcon : Bool),
        unitSource name ⟨p.graph.pruned⟩ r s hasIcon = unitSource name p r s hasIcon := by
  have w := wired_of_validate built valid
  exact ⟨built.sound.validate_pruned valid, fun _ m => w.fedBy_pruned m,
    fun _ _ _ => w.unitSource_pruned registered⟩

/-- A connection to the return value of the second ball is such a connection. -/
example :
    let drawn := boxedOnce.addEdge (.returnValue 1 "ball") (.returnValue 2 "ball")
    (drawn.validate boxes).isOk = true ∧ drawn.pruned.edges = boxedOnce.edges := by
  decide +kernel

end Pipewright.PipelineGraph
