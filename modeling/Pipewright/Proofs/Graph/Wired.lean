import Pipewright.Proofs.Graph.Validation
import Pipewright.Proofs.Registry
import Pipewright.Proofs.Unit.Names
import Pipewright.Unit.Run

/-! # The steps of a validated pipeline
What is known of the graph of a validated pipeline apart from types: its steps count up from zero,
each inner one belongs to a registered operation and has exactly its parameters, and what feeds a
slot comes from an earlier step. -/

namespace Pipewright.PipelineGraph

variable {g : PipelineGraph} {r : Registry} {key source : SlotKey} {i : Nat}

/-! ## Wiring -/

/-- What makes a graph run, types apart. -/
structure Wired (g : PipelineGraph) (r : Registry) : Prop where
  /-- The nodes are in key order, and connections are between nodes. -/
  sound : g.Sound
  /-- There is a node. -/
  nonempty : g.keys ≠ []
  /-- Nodes of the first and of the highest step name no operation. -/
  ends_bare : ∀ key ∈ g.keys, g.AtEnd key → key.operation = none
  /-- All other nodes name a registered operation. -/
  inner_registered : ∀ key ∈ g.keys, ¬ g.AtEnd key → ∃ o, Belongs r key o
  /-- What is spelled like a part of a return value is one. -/
  returns_resolve : ∀ key ∈ g.keys, ∀ o, Belongs r key o → SpelledReturn key.slot →
    ∃ t, o.Declares key.slot t
  /-- The nodes of a step name one operation. -/
  one_operation : ∀ key ∈ g.keys, ∀ other ∈ g.keys, key.step = other.step →
    key.operation = other.operation
  /-- The other slots of a step are exactly the parameters of its operation. -/
  parameters_wired : ∀ key ∈ g.keys, ∀ o, Belongs r key o →
    (g.wiredSlots key.step).Perm (o.parameters.map Prod.fst)
  /-- Below a used step every step is used. -/
  contiguous : ∀ key ∈ g.keys, ∀ step ≤ key.step, ∃ other ∈ g.keys, other.step = step
  /-- Signed words count the steps. -/
  below : g.StepsBelow signedBound
  /-- Connections go to later steps. -/
  forward : ∀ edge ∈ g.edges, edge.1.step < edge.2.step
  /-- A slot behind the first step that is not spelled like a return value has a literal or one
  producer. -/
  fed : ∀ key ∈ g.keys, key.step ≠ 0 → ¬ SpelledReturn key.slot → g.fixed? key = none →
    ∃ source, g.producer? key = some source

/-- The graph of a validated pipeline is wired. -/
theorem wired_of_validate (h : g.Built) {p : ValidatedPipeline} (e : g.validate r = .ok p) :
    p.graph.Wired r := by
  have w := wellFormed_of_validate h e
  obtain ⟨-, fill, -⟩ := validate_eq_ok_iff.1 e
  have s := fill.sound h.sound
  have atEnd : ∀ key, p.graph.AtEnd key ↔ g.AtEnd key := by
    intro key
    unfold AtEnd
    rw [fill.keys]
  have slots : ∀ step, p.graph.wiredSlots step = g.wiredSlots step := by
    intro step
    unfold wiredSlots keysAt
    rw [fill.keys]
  -- filling in types changes neither keys nor connections, so most carries over
  exact
    { sound := s
      nonempty := by
        rw [fill.keys]
        exact fun none => w.nonempty (List.map_eq_nil_iff.1 none)
      ends_bare := by
        simp only [fill.keys, atEnd]
        exact w.ends_bare
      inner_registered := by
        simp only [fill.keys, atEnd]
        exact w.inner_registered
      returns_resolve := by
        rw [fill.keys]
        exact w.returns_resolve
      one_operation := by
        rw [fill.keys]
        exact w.one_operation
      parameters_wired := by
        simp only [fill.keys, slots]
        exact w.parameters_wired
      contiguous := by
        rw [fill.keys]
        exact w.contiguous
      below := by
        unfold StepsBelow
        rw [fill.keys]
        exact h.stepsBelow w.contiguous
      forward := by
        rw [fill.edges]
        exact w.forward
      fed := by
        intro key m inner plain open'
        rw [fill.keys] at m
        -- a slot without a literal is fed by exactly one connection, which is its producer
        obtain ⟨⟨_, attrs⟩, there, rfl⟩ := List.mem_map.1 m
        obtain ⟨after, there', fills⟩ := fill.exists_filled there
        have found : p.graph.attrs? _ = some after := s.attrs?_eq_some_iff.2 there'
        unfold fixed? at open'
        rw [found, Option.bind_some, fills.fixed?] at open'
        have only := w.fed _ attrs there inner plain open'
        rw [← fill.edges] at only
        have one := s.inDegree_eq_one_iff.2 only
        unfold inDegree at one
        obtain ⟨⟨source, target⟩, alone⟩ := List.length_eq_one_iff.1 one
        refine ⟨source, ?_⟩
        unfold producer?
        rw [alone] }

namespace Wired

/-- No key belongs to a step behind the last one. -/
theorem step_le_lastStep (w : g.Wired r) (m : key ∈ g.keys) : key.step ≤ g.lastStep :=
  PipelineGraph.step_le_lastStep w.below.words m

/-- A key belongs to the last step exactly if no key belongs to a later one. -/
theorem step_eq_lastStep_iff (w : g.Wired r) (m : key ∈ g.keys) :
    key.step = g.lastStep ↔ ∀ other ∈ g.keys, other.step ≤ key.step :=
  PipelineGraph.step_eq_lastStep_iff w.below.words m

/-- What feeds a slot is a node of an earlier step. -/
theorem earlier (w : g.Wired r) (fed : g.producer? key = some source) :
    source ∈ g.keys ∧ key ∈ g.keys ∧ source.step < key.step := by
  have m : (source, key) ∈ g.inEdges key := by
    rw [producer?_eq_some_iff.1 fed]
    exact List.mem_singleton_self _
  have there := (List.mem_filter.1 m).1
  exact ⟨(w.sound.ends _ there).1, (w.sound.ends _ there).2, w.forward _ there⟩

/-- What feeds a slot and belongs to no operation is an overall input. -/
theorem source_input (w : g.Wired r) (fed : g.producer? key = some source)
    (bare : source.operation = none) : source.step = 0 := by
  obtain ⟨there, target, before⟩ := w.earlier fed
  by_contra inner
  have notEnd : ¬ g.AtEnd source := by
    rintro (first | last)
    · exact inner first
    · have := last key target
      omega
  obtain ⟨o, name, named, -⟩ := w.inner_registered source there notEnd
  rw [bare] at named
  cases named

/-- A node that belongs to an operation is of an inner step. -/
theorem inner_of_bound (w : g.Wired r) (m : key ∈ g.keys) (bound : key.operation ≠ none) :
    1 ≤ key.step ∧ key.step < g.lastStep ∧ ∃ o, Belongs r key o := by
  have notEnd : ¬ g.AtEnd key := fun e => bound (w.ends_bare key m e)
  have first : key.step ≠ 0 := fun e => notEnd (.inl e)
  have last : key.step ≠ g.lastStep := fun e => notEnd (.inr ((w.step_eq_lastStep_iff m).1 e))
  have := w.step_le_lastStep m
  exact ⟨by omega, by omega, w.inner_registered key m notEnd⟩

/-! ## Steps one by one -/

/-- The steps that are used are all up to the last one. -/
theorem usedSteps_eq (w : g.Wired r) : g.usedSteps = List.range (g.lastStep + 1) := by
  have ascending := w.sound.usedSteps_ascending
  have below : ∀ n ∈ g.usedSteps, ∀ m ≤ n, m ∈ g.usedSteps := by
    intro n hn m le
    obtain ⟨key, there, rfl⟩ := mem_usedSteps_iff.1 hn
    exact mem_usedSteps_iff.2 (w.contiguous key there m le)
  have range := eq_range_of_ascending ascending below
  have last : ∀ n, n ∈ g.usedSteps ↔ n ≤ g.lastStep := by
    intro n
    rw [mem_usedSteps_iff]
    constructor
    · rintro ⟨key, there, rfl⟩
      exact w.step_le_lastStep there
    · intro le
      -- some node belongs to the last step, so all steps below are used
      obtain ⟨top, there, e, -⟩ := exists_step_eq_lastStep w.below.words w.nonempty
      exact w.contiguous top there n (e ▸ le)
  rw [range]
  congr 1
  have up := last g.lastStep
  have beyond := last (g.lastStep + 1)
  rw [range, List.mem_range] at up beyond
  omega

/-- The groups are the keys of one step after another. -/
theorem groups_eq (w : g.Wired r) : g.groups = (List.range (g.lastStep + 1)).map g.keysAt := by
  have steps := w.usedSteps_eq
  unfold usedSteps at steps
  rw [← steps, List.map_filterMap]
  have each : ∀ run ∈ g.groups,
      (run.head?.map SlotKey.step).map g.keysAt = some run := by
    intro run m
    obtain ⟨key, k, -⟩ := exists_mem_of_mem_groups m
    cases run with
    | nil => cases k
    | cons first rest =>
      have e := w.sound.eq_keysAt m List.mem_cons_self
      rw [List.head?_cons, Option.map_some, Option.map_some, ← e]
  rw [List.filterMap_congr each, List.filterMap_some]

/-- The inner steps are those between the first and the last one. -/
theorem innerSteps_eq (w : g.Wired r) :
    g.innerSteps = (List.range' 1 (g.lastStep - 1)).map g.keysAt := by
  unfold innerSteps
  rw [w.groups_eq, List.range_eq_range', List.range'_succ, List.map_cons, List.tail_cons,
    ← List.map_dropLast]
  cases g.lastStep with
  | zero => rfl
  | succ last =>
    rw [List.range'_concat, List.dropLast_concat]
    rfl

end Wired

/-! ## Operations of steps -/

/-- An operation is the one of a step. -/
def OperationAt (g : PipelineGraph) (r : Registry) (step : Nat) (o : Operation) : Prop :=
  ∃ key ∈ g.keys, key.step = step ∧ Belongs r key o

/-- The variable of the result of a step. -/
def stepVariable (g : PipelineGraph) (step : Nat) : String :=
  returnVariable step (((g.keysAt step).head?.bind SlotKey.operation).getD "")

/-- Steps are told by the variables of their results. -/
theorem stepVariable_inj {j : Nat} (h : g.stepVariable i = g.stepVariable j) : i = j :=
  returnVariable_inj h

namespace Wired

/-- The first key of a used step. -/
theorem exists_keysAt_eq (w : g.Wired r) (le : i ≤ g.lastStep) :
    ∃ first rest, g.keysAt i = first :: rest ∧ first ∈ g.keys ∧ first.step = i := by
  have used : i ∈ g.usedSteps := by
    rw [w.usedSteps_eq, List.mem_range]
    omega
  obtain ⟨key, there, rfl⟩ := mem_usedSteps_iff.1 used
  have m : key ∈ g.keysAt key.step := List.mem_filter.2 ⟨there, by simp⟩
  cases e : g.keysAt key.step with
  | nil =>
    rw [e] at m
    cases m
  | cons first rest =>
    have m' : first ∈ g.keysAt key.step := e ▸ List.mem_cons_self
    obtain ⟨there', same⟩ := List.mem_filter.1 m'
    exact ⟨first, rest, rfl, there', by simpa using same⟩

/-- The variable of a step is named for the operation of any of its keys. -/
theorem stepVariable_eq (w : g.Wired r) (m : key ∈ g.keys) {operation : String}
    (named : key.operation = some operation) :
    g.stepVariable key.step = returnVariable key.step operation := by
  obtain ⟨first, rest, e, there, same⟩ := w.exists_keysAt_eq (w.step_le_lastStep m)
  have one := w.one_operation first there key m same
  unfold stepVariable
  rw [e, List.head?_cons, Option.bind_some, one, named, Option.getD_some]

/-- Every inner step has an operation, which its first key tells. -/
theorem exists_operationAt (w : g.Wired r) (inner : 1 ≤ i) (inner' : i < g.lastStep) :
    ∃ o, g.OperationAt r i o ∧ stepOperation r (g.keysAt i) = .ok (i, o) := by
  obtain ⟨first, rest, e, there, rfl⟩ := w.exists_keysAt_eq (Nat.le_of_lt inner')
  have notEnd : ¬ g.AtEnd first := by
    rintro (zero | last)
    · omega
    · have := (w.step_eq_lastStep_iff there).2 last
      omega
  obtain ⟨o, belongs⟩ := w.inner_registered first there notEnd
  refine ⟨o, ⟨first, there, rfl, belongs⟩, ?_⟩
  obtain ⟨name, named, found⟩ := belongs
  rw [e]
  unfold stepOperation
  simp only [named, found]

/-- A step has one operation. -/
theorem operationAt_unique (w : g.Wired r) {o o' : Operation} (h : g.OperationAt r i o)
    (h' : g.OperationAt r i o') : o = o' := by
  obtain ⟨key, m, e, belongs⟩ := h
  obtain ⟨key', m', e', name, named, found⟩ := h'
  refine belongs.unique ⟨name, ?_, found⟩
  rw [w.one_operation key m key' m' (e.trans e'.symm)]
  exact named

/-- The variable of a step is named for its operation. -/
theorem stepVariable_operation (w : g.Wired r) (built : r.Built) {o : Operation}
    (h : g.OperationAt r i o) : g.stepVariable i = returnVariable i o.name := by
  obtain ⟨key, m, rfl, name, named, found⟩ := h
  rw [w.stepVariable_eq m named, (built.sound found).1]

/-- A step with an operation is an inner one. -/
theorem inner_of_operationAt (w : g.Wired r) {o : Operation} (h : g.OperationAt r i o) :
    1 ≤ i ∧ i < g.lastStep := by
  obtain ⟨key, m, rfl, belongs⟩ := h
  have inner := w.inner_of_bound m belongs.bound
  exact ⟨inner.1, inner.2.1⟩

/-- The parameters of the operation of a step are slots of the step. -/
theorem parameter_mem (w : g.Wired r) (built : r.Built) {o : Operation} (h : g.OperationAt r i o)
    {name : String} (m : name ∈ Keyed.keys o.parameters) :
    SlotKey.parameter i o.name name ∈ g.keys ∧ ¬ SpelledReturn name := by
  obtain ⟨key, there, rfl, belongs⟩ := h
  have slot := (w.parameters_wired key there o belongs).mem_iff.2 m
  unfold wiredSlots at slot
  obtain ⟨other, m', rfl⟩ := List.mem_map.1 slot
  obtain ⟨at', plain⟩ := List.mem_filter.1 m'
  obtain ⟨there', same⟩ := List.mem_filter.1 at'
  rw [beq_iff_eq] at same
  obtain ⟨named, e, found⟩ := belongs
  have operation : other.operation = some o.name := by
    rw [w.one_operation other there' key there same, e, (built.sound found).1]
  have whole : SlotKey.parameter key.step o.name other.slot = other := by
    obtain ⟨step, op, slot⟩ := other
    cases same
    cases operation
    rfl
  exact ⟨whole ▸ there', SlotKey.isReturn_eq_false_iff.1 (by simpa using plain)⟩

/-- The variables of the results are those of the inner steps, one after another. -/
theorem resultVariables_eq (w : g.Wired r) :
    g.resultVariables = (List.range' 1 (g.lastStep - 1)).map g.stepVariable := by
  unfold resultVariables
  rw [w.innerSteps_eq, List.filterMap_map, ← List.filterMap_eq_map]
  refine List.filterMap_congr fun i m => ?_
  have inner : 1 ≤ i ∧ i < g.lastStep := by
    rw [List.mem_range'_1] at m
    omega
  obtain ⟨o, ⟨key, m', rfl, name, named, -⟩, -⟩ := w.exists_operationAt inner.1 inner.2
  obtain ⟨first, rest, e, there, same⟩ := w.exists_keysAt_eq (w.step_le_lastStep m')
  have one : first.operation = some name := (w.one_operation first there key m' same).trans named
  have variable' := w.stepVariable_eq there one
  rw [same] at variable'
  simp only [Function.comp_apply, e, List.head?_cons, Option.bind_eq_bind, Option.bind_some, one,
    variable', same]
  rfl

end Wired

end Pipewright.PipelineGraph
