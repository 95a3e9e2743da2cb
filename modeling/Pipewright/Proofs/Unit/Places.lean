import Pipewright.Proofs.Unit.Cleanup
import Pipewright.Proofs.Unit.Running

/-! # Places in the variables of a run
The places at which the steps of a pipeline return nodes, those whose nodes may be removed, and
those whose nodes are retained: overall inputs and what is returned. Each is found in a variable of
the function that runs the pipeline. -/

namespace Pipewright.PipelineGraph

variable {g : PipelineGraph} {r : Registry} {key : SlotKey} {a : Access} {managed returned : List Access}
  {inputs : List SlotKey}

/-! ## Bindings -/

/-- A binding that is no literal is an overall input, or leads to a return value of an earlier
step. -/
theorem access_of_binding (w : g.Wired r) (h : g.binding key = .ok (.access a)) :
    (∃ source ∈ g.keys, source.step = 0 ∧ a = .whole source.slot) ∨
      ∃ source ∈ g.keys, ∃ o, Belongs r source o ∧ SpelledReturn source.slot ∧
        source.step < key.step ∧ a = ⟨g.stepVariable source.step, source.returnPath⟩ := by
  fun_induction g.binding key with
  | case1 => cases h
  | case2 => cases h
  | case3 key fixed source producer boundary =>
    cases h
    exact .inl ⟨source, (w.earlier producer).1, w.source_input producer boundary, rfl⟩
  | case4 key fixed source producer operation named isReturn =>
    cases h
    obtain ⟨there, -, before⟩ := w.earlier producer
    obtain ⟨-, -, o, belongs⟩ := w.inner_of_bound there (by simp [named])
    refine .inr ⟨source, there, o, belongs, isReturnSlot_iff.1 isReturn, before, ?_⟩
    rw [w.stepVariable_eq there named]
    rfl
  | case5 key fixed source producer operation named plain before ih =>
    rcases ih h with input | ⟨first, there, o, belongs, spelled, before', e⟩
    · exact .inl input
    · exact .inr ⟨first, there, o, belongs, spelled, by omega, e⟩
  | case6 => cases h

/-! ## Managed places -/

/-- The managed places of a step are those at which its operation returns nodes. -/
theorem Wired.exists_managedOfStep (w : g.Wired r) (built : r.Built) (first : 1 ≤ i)
    (last : i < g.lastStep) : ∃ o, g.OperationAt r i o ∧ managedOfStep r (g.keysAt i) =
      .ok (o.returns.nodePaths.map fun path => ⟨g.stepVariable i, path⟩) := by
  obtain ⟨o, at', found⟩ := w.exists_operationAt first last
  refine ⟨o, at', ?_⟩
  rw [w.stepVariable_operation built at']
  unfold managedOfStep
  rw [found]
  rfl

/-- A place is managed exactly if the operation of a step returns a node there. -/
theorem mem_managed_iff (w : g.Wired r) (built : r.Built) (h : g.managed r = .ok managed) :
    a ∈ managed ↔ ∃ i o, g.OperationAt r i o ∧ ∃ path ∈ o.returns.nodePaths,
      a = ⟨g.stepVariable i, path⟩ := by
  unfold PipelineGraph.managed at h
  cases all : g.innerSteps.mapM (managedOfStep r) with
  | error fault =>
    rw [all] at h
    cases h
  | ok lists =>
    rw [all] at h
    cases h
    rw [w.innerSteps_eq, List.mapM_map] at all
    rw [List.mem_flatten]
    constructor
    · rintro ⟨places, m, m'⟩
      obtain ⟨i, inner, found⟩ := (mem_of_mapM_eq_ok all).1 m
      rw [List.mem_range'_1] at inner
      obtain ⟨o, at', found'⟩ := w.exists_managedOfStep built inner.1 (by omega)
      cases found.symm.trans found'
      obtain ⟨path, m'', rfl⟩ := List.mem_map.1 m'
      exact ⟨i, o, at', path, m'', rfl⟩
    · rintro ⟨i, o, at', path, m, rfl⟩
      obtain ⟨first, last⟩ := w.inner_of_operationAt at'
      obtain ⟨o', at'', found⟩ := w.exists_managedOfStep built first last
      cases w.operationAt_unique at' at''
      refine ⟨_, (mem_of_mapM_eq_ok all).2 ⟨i, List.mem_range'_1.2 ⟨first, by omega⟩, found⟩, ?_⟩
      exact List.mem_map_of_mem m

/-- A place may be removed if it is managed and overlaps nothing that is returned. -/
theorem mem_removable_iff : a ∈ removable managed returned ↔
    a ∈ managed ∧ ∀ b ∈ returned, b.overlaps a = false := by
  unfold removable
  rw [List.mem_filter, Bool.not_eq_true', List.any_eq_false]
  simp

/-! ## Retained places -/

/-- The declared type of a slot mentions nodes. -/
def HoldsNode (g : PipelineGraph) (key : SlotKey) : Prop :=
  ∃ t, g.datatype? key = some t ∧ t.mentionsNode = true

/-- What is retained are the returned places and the overall inputs that hold nodes. -/
theorem mem_retained_iff : a ∈ g.retained returned inputs ↔
    a ∈ returned ∨ ∃ key ∈ inputs, g.HoldsNode key ∧ a = .whole key.slot := by
  unfold retained
  induction inputs generalizing returned with
  | nil => simp
  | cons key inputs ih =>
    have holds : ((g.datatype? key).map DataType.mentionsNode).getD false = true ↔
        g.HoldsNode key := by
      unfold HoldsNode
      cases g.datatype? key <;> simp
    rw [List.foldl_cons, ih]
    simp only [List.exists_mem_cons_iff]
    by_cases node : g.HoldsNode key
    · by_cases there : returned.contains (Access.whole key.slot) = true
      · have m := List.contains_iff_mem.1 there
        simp only [holds.2 node, there]
        grind
      · have m : Access.whole key.slot ∉ returned := fun m => there (List.contains_iff_mem.2 m)
        simp only [holds.2 node, there]
        simp
        grind
    · rw [← holds] at node
      simp [node, ← holds]

end Pipewright.PipelineGraph
