import Pipewright.Proofs.Scene.Sound
import Pipewright.Proofs.Unit.Called
import Pipewright.Proofs.Unit.Nodes

/-! # Which nodes are removed
A run removes exactly those nodes of its steps that are neither found in what the outputs carry or in
an input that holds nodes, nor referenced by a node that is; when a step has failed, the outputs carry
what they get from the steps before. Of the places that may be removed those are left out beforehand
that overlap one that is returned; what is found there is found in what the outputs carry. -/

namespace Pipewright.PipelineGraph

open Host (Environment)

variable {g : PipelineGraph} {r : Registry} {inputs : List (SlotKey × Datum)}
  {results : List (Nat × Datum)} {d : Datum} {handle : NodeHandle} {id : String}
  {read : Value → Option Datum}

/-! ## What is returned -/

/-- The nodes of what a pipeline returns are those of what its outputs carry. -/
theorem Returns.mem_nodes_iff (h : g.Returns read inputs results d) :
    handle ∈ d.nodes ↔ ∃ key ∈ g.keysAt g.lastStep, ∃ part,
      g.Carries read inputs results key part ∧ handle ∈ part.nodes := by
  cases h with
  | @single key d only carried =>
    rw [only]
    simp only [List.mem_singleton, exists_eq_left]
    refine ⟨fun m => ⟨d, carried, m⟩, ?_⟩
    rintro ⟨part, carried', m⟩
    rwa [carried.unique carried']
  | @several entries more sorted names carried =>
    rw [Datum.mem_nodes_map_iff]
    constructor
    · rintro ⟨⟨name, part⟩, there, m⟩
      obtain ⟨key, atEnd, rfl⟩ := List.mem_map.1 ((names name).1 (List.mem_map_of_mem there))
      obtain ⟨part', found, carried'⟩ := carried key atEnd
      rw [sorted.lookup_of_mem String.lt_irrefl there] at found
      cases found
      exact ⟨key, atEnd, part, carried', m⟩
    · rintro ⟨key, atEnd, part, carried', m⟩
      obtain ⟨part', found, carried''⟩ := carried key atEnd
      rw [carried'.unique carried''] at m
      exact ⟨_, Keyed.mem_of_lookup found, m⟩

/-- The nodes at the place that a slot is bound to are those of what the slot carries; a slot that is
bound to a literal carries none. -/
theorem mem_nodes_read_iff (w : g.Wired r) (named : g.NamedKeys 0 (inputs.map Prod.fst))
    {callback : Progress.Callback} {removes failed : Bool} {failure : Datum} {key : SlotKey}
    {b : Binding} (bound : g.binding key = .ok b) (last : key.step ≤ g.lastStep) :
    (∃ a, b.access? = some a ∧
        handle ∈ (a.read (g.runScope inputs callback removes results failed failure)).nodes) ↔
      ∃ part, g.Carries Value.reading inputs results key part ∧ handle ∈ part.nodes := by
  have none' : HoldsOperations [] := fun _ m => absurd m List.not_mem_nil
  -- the overall inputs are shown, whichever steps have been run
  have shown : g.Shows inputs results 0
      (g.runScope inputs callback removes results failed failure) :=
    shows_runScope w named none' (Nat.zero_le _) fun j first before => by omega
  fun_induction g.binding key with
  | case1 key v fixed =>
    cases bound
    simp only [carries_literal_iff fixed, Binding.access?, reduceCtorEq, false_and, exists_false,
      false_iff]
    rintro ⟨part, stands, m⟩
    rw [Value.nodes_reading v stands] at m
    cases m
  | case2 => cases bound
  | case3 key fixed source producer boundary =>
    cases bound
    have fed : g.FedBy key source := ⟨fixed, producer⟩
    have found := shown.input source (w.earlier producer).1 (w.source_input producer boundary)
    simp only [fed.carries_iff, if_pos boundary, ← found, Binding.access?, Option.some.injEq,
      exists_eq_left']
    unfold Access.read
    cases Keyed.lookup source.slot _ with
    | none => simp [Datum.nodes]
    | some d => simp
  | case4 key fixed source producer operation named' isReturn =>
    cases bound
    obtain ⟨there, -, before⟩ := w.earlier producer
    have belongs : source.operation ≠ none := by simp [named']
    obtain ⟨first, -, -⟩ := w.inner_of_bound there belongs
    have fed : g.FedBy key source := ⟨fixed, producer⟩
    have found : Keyed.lookup (g.stepVariable source.step)
        (g.runScope inputs callback removes results failed failure) =
        some ((Keyed.lookup source.step results).getD .unit) :=
      lookup_stepVariable w named first (by omega)
    rw [w.stepVariable_eq there named'] at found
    simp only [fed.carries_iff, if_neg belongs, if_pos isReturn, Binding.access?, Option.some.injEq,
      exists_eq_left']
    unfold Access.read
    rw [found, Option.getD_some]
    cases Keyed.lookup source.step results with
    | none => simp [Datum.nodes]
    | some d => exact Datum.mem_nodes_member_iff
  | case5 key fixed source producer operation named' plain before ih =>
    have belongs : source.operation ≠ none := by simp [named']
    have fed : g.FedBy key source := ⟨fixed, producer⟩
    simp only [fed.carries_iff, if_neg belongs, if_neg plain]
    exact ih bound (by omega)
  | case6 => cases bound

/-! ## What is managed and what is protected -/

/-- A step has returned a node at a place where its operation returns nodes. -/
def Managed (g : PipelineGraph) (r : Registry) (results : List (Nat × Datum)) (id : String) : Prop :=
  ∃ i o, g.OperationAt r i o ∧ ∃ path ∈ o.returns.nodePaths, ∃ result handle,
    Keyed.lookup i results = some result ∧ result.fields? path = some (.node handle) ∧
      handle.id = id

/-- A node is found in what a pipeline returns, or in an overall input whose type mentions nodes. -/
def Protected (g : PipelineGraph) (inputs : List (SlotKey × Datum)) (d : Datum)
    (handle : NodeHandle) : Prop :=
  handle ∈ d.nodes ∨ ∃ key part, (key, part) ∈ inputs ∧ g.HoldsNode key ∧ handle ∈ part.nodes

/-- The results of steps have the packs of the types that their operations declare. -/
def ResultsFit (g : PipelineGraph) (r : Registry) (results : List (Nat × Datum)) : Prop :=
  ∀ i o result, g.OperationAt r i o → Keyed.lookup i results = some result →
    Datum.Fits (fun _ => True) o.returns result

/-- A step has returned a node that is not protected, and that no protected node references. -/
structure Unprotected (g : PipelineGraph) (r : Registry) (inputs : List (SlotKey × Datum))
    (results : List (Nat × Datum)) (d : Datum) (scene : Scene Entries) (id : String) : Prop where
  /-- A step has returned the node. -/
  managed : g.Managed r results id
  /-- The node is not protected itself. -/
  apart : ∀ handle, g.Protected inputs d handle → handle.id ≠ id
  /-- No protected node references it under any role. -/
  unreferenced : ∀ handle, g.Protected inputs d handle → ∀ role,
    scene.hasReference handle.id role id = false

/-- A node is found in what an output carries, or in an overall input whose type mentions nodes. -/
def Spared (g : PipelineGraph) (inputs : List (SlotKey × Datum)) (results : List (Nat × Datum))
    (handle : NodeHandle) : Prop :=
  (∃ key ∈ g.keysAt g.lastStep, ∃ part,
      g.Carries Value.reading inputs results key part ∧ handle ∈ part.nodes) ∨
    ∃ key part, (key, part) ∈ inputs ∧ g.HoldsNode key ∧ handle ∈ part.nodes

/-- A step has returned a node that is not spared, and that no spared node references. -/
structure Loose (g : PipelineGraph) (r : Registry) (inputs : List (SlotKey × Datum))
    (results : List (Nat × Datum)) (scene : Scene Entries) (id : String) : Prop where
  /-- A step has returned the node. -/
  managed : g.Managed r results id
  /-- The node is not spared itself. -/
  apart : ∀ handle, g.Spared inputs results handle → handle.id ≠ id
  /-- No spared node references it under any role. -/
  unreferenced : ∀ handle, g.Spared inputs results handle → ∀ role,
    scene.hasReference handle.id role id = false

/-- Where a pipeline returns something, the nodes in it are those that its outputs carry. -/
theorem Returns.protected_iff (h : g.Returns Value.reading inputs results d) :
    g.Protected inputs d handle ↔ g.Spared inputs results handle := by
  unfold Protected Spared
  rw [h.mem_nodes_iff]

/-- Where a pipeline returns something, the nodes that nothing protects are those that are loose. -/
theorem Returns.unprotected_iff (h : g.Returns Value.reading inputs results d)
    {scene : Scene Entries} :
    g.Unprotected r inputs results d scene id ↔ g.Loose r inputs results scene id := by
  constructor
  · intro free
    exact
      { managed := free.managed
        apart := fun handle spared => free.apart handle (h.protected_iff.2 spared)
        unreferenced := fun handle spared => free.unreferenced handle (h.protected_iff.2 spared) }
  · intro loose
    exact
      { managed := loose.managed
        apart := fun handle protect => loose.apart handle (h.protected_iff.1 protect)
        unreferenced := fun handle protect => loose.unreferenced handle (h.protected_iff.1 protect) }

/-- The nodes at some places by their ids. -/
theorem mem_nodesAt_iff {places : List Access} {s : Entries} :
    id ∈ nodesAt places s ↔ ∃ a ∈ places, ∃ handle, a.read s = .node handle ∧ handle.id = id := by
  have node : ∀ d : Datum, d.node?.map NodeHandle.id = some id ↔
      ∃ handle, d = .node handle ∧ handle.id = id := by
    intro d
    cases d <;> simp [Datum.node?]
  unfold nodesAt
  rw [List.mem_filterMap]
  exact exists_congr fun a => and_congr_right fun _ => node _

/-! ## What is left -/

/-- How a run went whose steps have been run, all of them or up to one that has failed: then nodes
were removed if they were to be. -/
structure Ended (g : PipelineGraph) (r : Registry) (inputs : List (SlotKey × Datum))
    (mode : RunMode) (before : World) (left : Scene Entries) (e : Ending) (after : World)
    (outputs : List SlotKey) (returned : List Binding) (places : List Access) : Prop where
  /-- The overall inputs are those of the pipeline. -/
  named : g.NamedKeys 0 (inputs.map Prod.fst)
  /-- The overall outputs are those of the pipeline. -/
  named' : g.NamedKeys g.lastStep outputs
  /-- What is returned is what the outputs are bound to. -/
  bound : outputs.mapM g.binding = .ok returned
  /-- Nodes are removed from the managed places. -/
  managed : g.managed r = .ok places
  /-- The steps were run, one after another. -/
  completes : g.Completes r inputs (mode.start before).1
    ((mode.start before).2.report (mode.start before).1 "" 0 0 (Int64.ofNat g.pieces)) e after
  /-- The nodes are those of the last step, but for those that were removed. -/
  left : left = (g.cleaned inputs mode.removes places (returned.filterMap Binding.access?)
    (g.endScope inputs (mode.start before).1 mode.removes e) after).scene

namespace Ended

variable {mode : RunMode} {before after : World} {left : Scene Entries} {e : Ending}
  {outputs : List SlotKey} {returned : List Binding} {places : List Access}

section Scope

variable (c : g.Ended r inputs mode before left e after outputs returned places) (w : g.Wired r)

/-- The variables at the end of the run. -/
def scope (_ : g.Ended r inputs mode before left e after outputs returned places) : Entries :=
  g.endScope inputs (mode.start before).1 mode.removes e

include w

/-- The nodes at the returned places are those that the outputs carry. -/
theorem mem_nodes_iff : (∃ a ∈ returned.filterMap Binding.access?, handle ∈ (a.read c.scope).nodes) ↔
    ∃ key ∈ g.keysAt g.lastStep, ∃ part,
      g.Carries Value.reading inputs e.results key part ∧ handle ∈ part.nodes := by
  have atEnd : ∀ {key}, key ∈ outputs ↔ key ∈ g.keysAt g.lastStep := c.named'.perm.mem_iff
  have last : ∀ {key}, key ∈ outputs → key.step ≤ g.lastStep :=
    fun m => w.step_le_lastStep (List.mem_filter.1 (atEnd.1 m)).1
  constructor
  · rintro ⟨a, m, m'⟩
    obtain ⟨b, there, accessed⟩ := List.mem_filterMap.1 m
    obtain ⟨key, m'', bound⟩ := (mem_of_mapM_eq_ok c.bound).1 there
    exact ⟨key, atEnd.1 m'', (mem_nodes_read_iff w c.named bound (last m'')).1 ⟨a, accessed, m'⟩⟩
  · rintro ⟨key, m, carried⟩
    rw [← atEnd] at m
    obtain ⟨b, there, bound⟩ := exists_of_mapM_eq_ok c.bound m
    obtain ⟨a, accessed, m'⟩ := (mem_nodes_read_iff w c.named bound (last m)).2 carried
    exact ⟨a, List.mem_filterMap.2 ⟨b, there, accessed⟩, m'⟩

/-- The nodes found at the places that are retained are the spared ones. -/
theorem mem_retained_iff : handle ∈ Datum.nodesOfItems
    ((g.retained (returned.filterMap Binding.access?) (inputs.map Prod.fst)).map
      fun a => a.read c.scope) ↔ g.Spared inputs e.results handle := by
  have input : ∀ {key part}, (key, part) ∈ inputs →
      (Access.whole key.slot).read c.scope = part := by
    intro key part m
    have found : Keyed.lookup key.slot c.scope = some part := lookup_input w c.named m
    unfold Access.read Access.whole
    rw [found, Option.getD_some, Datum.member_nil]
  rw [Datum.nodesOfItems_eq, List.flatMap_map, List.mem_flatMap, Spared, ← c.mem_nodes_iff w]
  constructor
  · rintro ⟨a, m, m'⟩
    rcases PipelineGraph.mem_retained_iff.1 m with back | ⟨key, given, holds, rfl⟩
    · exact .inl ⟨a, back, m'⟩
    · obtain ⟨⟨key, part⟩, there, rfl⟩ := List.mem_map.1 given
      rw [input there] at m'
      exact .inr ⟨key, part, there, holds, m'⟩
  · rintro (⟨a, m, m'⟩ | ⟨key, part, there, holds, m'⟩)
    · exact ⟨a, PipelineGraph.mem_retained_iff.2 (.inl m), m'⟩
    · refine ⟨.whole key.slot, PipelineGraph.mem_retained_iff.2
        (.inr ⟨key, List.mem_map_of_mem there, holds, rfl⟩), ?_⟩
      rwa [input there]

/-- What is found at a place in the result of a step is a node exactly if the step has returned it
there. -/
theorem read_eq_node_iff {i : Nat} (first : 1 ≤ i) (last : i < g.lastStep) {path : List String} :
    (Access.mk (g.stepVariable i) path).read c.scope = .node handle ↔
      ∃ result, Keyed.lookup i e.results = some result ∧
        result.fields? path = some (.node handle) := by
  have found : Keyed.lookup (g.stepVariable i) c.scope =
      some ((Keyed.lookup i e.results).getD .unit) := lookup_stepVariable w c.named first last
  unfold Access.read
  simp only
  rw [found, Option.getD_some, Datum.member_eq_node_iff]
  cases Keyed.lookup i e.results with
  | none =>
    cases path <;> simp [Datum.fields?, Datum.field?]
  | some result => simp

/-- The nodes at the managed places are those that steps have returned there. -/
theorem managed_iff (built : r.Built) : g.Managed r e.results id ↔
    ∃ a ∈ places, ∃ handle, a.read c.scope = .node handle ∧ handle.id = id := by
  constructor
  · rintro ⟨i, o, at', path, m, result, handle, found, leads, same⟩
    obtain ⟨first, last⟩ := w.inner_of_operationAt at'
    exact ⟨_, (mem_managed_iff w built c.managed).2 ⟨i, o, at', path, m, rfl⟩, handle,
      (c.read_eq_node_iff w first last).2 ⟨result, found, leads⟩, same⟩
  · rintro ⟨a, m, handle, there, same⟩
    obtain ⟨i, o, at', path, m', rfl⟩ := (mem_managed_iff w built c.managed).1 m
    obtain ⟨first, last⟩ := w.inner_of_operationAt at'
    obtain ⟨result, found, leads⟩ := (c.read_eq_node_iff w first last).1 there
    exact ⟨i, o, at', path, m', result, handle, found, leads, same⟩

/-- A node at a managed place that overlaps a returned one is found in what the outputs carry. -/
theorem spared_of_overlaps (built : r.Built) (fits : g.ResultsFit r e.results) {a b : Access}
    (m : a ∈ places) (m' : b ∈ returned.filterMap Binding.access?) (overlaps : b.overlaps a = true)
    (there : a.read c.scope = .node handle) : g.Spared inputs e.results handle := by
  refine .inl ((c.mem_nodes_iff w).1 ⟨b, m', ?_⟩)
  unfold Access.overlaps at overlaps
  rw [Bool.and_eq_true, Bool.or_eq_true, beq_iff_eq, List.isPrefixOf_iff_prefix,
    List.isPrefixOf_iff_prefix] at overlaps
  obtain ⟨base, within⟩ := overlaps
  -- a returned place around the managed one holds its node
  have around : ∀ rest, a.path = b.path ++ rest → handle ∈ (b.read c.scope).nodes := by
    intro rest e
    refine Datum.nodes_member_subset _ rest ?_
    have same : (b.read c.scope).member rest = a.read c.scope := by
      unfold Access.read
      rw [base, e, Datum.member_append]
    rw [same, there]
    exact List.mem_singleton_self handle
  rcases within with ⟨rest, e⟩ | ⟨rest, e⟩
  · exact around rest e.symm
  · cases rest with
    | nil =>
      rw [List.append_nil] at e
      exact around [] (by rw [e, List.append_nil])
    | cons name rest =>
      -- nothing that is returned goes on behind a node
      exfalso
      obtain ⟨i, o, at', path, -, rfl⟩ := (mem_managed_iff w built c.managed).1 m
      obtain ⟨first, last⟩ := w.inner_of_operationAt at'
      obtain ⟨result, found, leads⟩ := (c.read_eq_node_iff w first last).1 there
      obtain ⟨binding, m'', accessed⟩ := List.mem_filterMap.1 m'
      obtain ⟨key, -, bound⟩ := (mem_of_mapM_eq_ok c.bound).1 m''
      cases binding with
      | literal v => cases accessed
      | access b' =>
        cases accessed
        rcases access_of_binding w bound with ⟨source, -, -, rfl⟩ |
          ⟨source, known, o', belongs, spelled, -, rfl⟩
        · simp [Access.whole] at e
        · cases stepVariable_inj base
          cases w.operationAt_unique at' ⟨source, known, rfl, belongs⟩
          obtain ⟨t, declares⟩ := w.returns_resolve source known o belongs spelled
          have resolved := declares.resolve? spelled
          have further : path ++ name :: rest = source.returnPath := e
          rw [← further] at resolved
          obtain ⟨entries, reached⟩ := (fits _ _ _ at' found).exists_map resolved
          cases leads.symm.trans reached

/-- A node is not kept, if it is neither spared nor referenced by a spared node. -/
theorem not_keeps_iff {scene : Scene Entries} :
    (¬ scene.keeps (Datum.nodesOfItems ((g.retained (returned.filterMap Binding.access?)
      (inputs.map Prod.fst)).map fun a => a.read c.scope)) id = true) ↔
      ∀ handle, g.Spared inputs e.results handle → handle.id ≠ id ∧
        ∀ role, scene.hasReference handle.id role id = false := by
  rw [Scene.keeps_iff]
  simp only [c.mem_retained_iff w, Scene.refers_iff]
  simp

/-- Only loose nodes are removed. -/
theorem loose_of_released (built : r.Built) {scene : Scene Entries}
    (m : id ∈ nodesAt (removable places (returned.filterMap Binding.access?)) c.scope)
    (loose : ¬ scene.keeps (Datum.nodesOfItems ((g.retained (returned.filterMap Binding.access?)
      (inputs.map Prod.fst)).map fun a => a.read c.scope)) id = true) :
    g.Loose r inputs e.results scene id := by
  obtain ⟨a, m', handle, there, same⟩ := mem_nodesAt_iff.1 m
  have free := (c.not_keeps_iff w).1 loose
  exact
    { managed := (c.managed_iff w built).2 ⟨a, (mem_removable_iff.1 m').1, handle, there, same⟩
      apart := fun handle spared => (free handle spared).1
      unreferenced := fun handle spared => (free handle spared).2 }

/-- A loose node is removed, wherever a step has returned it. -/
theorem mem_nodesAt_of_loose (built : r.Built) (fits : g.ResultsFit r e.results)
    {scene : Scene Entries} (h : g.Loose r inputs e.results scene id) :
    id ∈ nodesAt (removable places (returned.filterMap Binding.access?)) c.scope := by
  obtain ⟨a, m, handle, there, same⟩ := (c.managed_iff w built).1 h.managed
  refine mem_nodesAt_iff.2 ⟨a, mem_removable_iff.2 ⟨m, fun b m' => ?_⟩, handle, there, same⟩
  -- a place that was left out beforehand holds a node that an output carries
  rw [Bool.eq_false_iff]
  intro overlaps
  exact h.apart handle (c.spared_of_overlaps w built fits m m' overlaps there) same

omit w in
include c in
/-- What is left behind the steps, if nodes are removed: of the nodes of the last of them those that
were not released or are kept. -/
theorem contains_left (sound : after.scene.Sound) (removes : mode.removes = true) :
    left.contains id = true ↔ after.scene.contains id = true ∧
      (id ∈ nodesAt (removable places (returned.filterMap Binding.access?)) c.scope →
        after.scene.keeps (Datum.nodesOfItems ((g.retained (returned.filterMap Binding.access?)
          (inputs.map Prod.fst)).map fun a => a.read c.scope)) id = true) := by
  have same := c.left
  unfold cleaned at same
  rw [if_pos removes] at same
  exact (iff_of_eq (congrArg (fun s : Scene Entries => s.contains id = true) same)).trans
    (Scene.contains_releaseAll sound)

end Scope

section Left

variable (c : g.Ended r inputs mode before left e after outputs returned places)

include c

/-- Where nodes are not removed, all nodes of the last step are left. -/
theorem left_eq (removes : mode.removes = false) : left = after.scene := by
  rw [c.left, cleaned, removes]
  rfl

variable (w : g.Wired r) (built : r.Built) (sound : after.scene.Sound)

include w built sound

/-- What is left behind the steps are the nodes of the last of them, but for those that are loose,
if nodes are removed. -/
theorem contains_left_iff (fits : g.ResultsFit r e.results) :
    left.contains id = true ↔ after.scene.contains id = true ∧
      (mode.removes = true → ¬ g.Loose r inputs e.results after.scene id) := by
  cases removes : mode.removes with
  | false => simp [c.left_eq removes]
  | true =>
    rw [c.contains_left sound removes]
    refine and_congr_right fun _ => ⟨fun kept _ h => ?_, fun free m => ?_⟩
    · have loose := (c.not_keeps_iff w).2 fun handle spared =>
        ⟨h.apart handle spared, h.unreferenced handle spared⟩
      exact loose (kept (c.mem_nodesAt_of_loose w built fits h))
    · exact by_contra fun loose => free rfl (c.loose_of_released w built m loose)

/-- A node that is spared, or that a spared node references, is left, whatever the steps have
returned. -/
theorem contains_of_spared (spared : g.Spared inputs e.results handle)
    (near : handle.id = id ∨ ∃ role, after.scene.hasReference handle.id role id = true)
    (there : after.scene.contains id = true) : left.contains id = true := by
  cases removes : mode.removes with
  | false => rwa [c.left_eq removes]
  | true =>
    rw [c.contains_left sound removes]
    refine ⟨there, fun m => by_contra fun loose => ?_⟩
    have h := c.loose_of_released w built m loose
    rcases near with same | ⟨role, found⟩
    · exact h.apart handle spared same
    · rw [h.unreferenced handle spared role] at found
      cases found

end Left

end Ended

namespace Completed

variable {mode : RunMode} {before after : World} {left : Scene Entries} {e : Ending}
  {outputs : List SlotKey} {returned : List Binding} {places : List Access}
  (c : g.Completed r inputs mode before d left e after outputs returned places)

include c

/-- A run that has returned something is one that has come to its end. -/
theorem ended : g.Ended r inputs mode before left e after outputs returned places where
  named := c.named
  named' := c.named'
  bound := c.bound
  managed := c.managed
  completes := c.completes
  left := c.left

variable (w : g.Wired r) (built : r.Built) (sound : after.scene.Sound)

include w built sound

/-- What is left behind the steps are the nodes of the last of them, but for those that nothing
protects, if nodes are removed. -/
theorem contains_left_iff (fits : g.ResultsFit r e.results) :
    left.contains id = true ↔ after.scene.contains id = true ∧
      (mode.removes = true → ¬ g.Unprotected r inputs e.results d after.scene id) := by
  rw [c.ended.contains_left_iff w built sound fits, c.returns.unprotected_iff]

/-- A node that is protected, or that a protected node references, is left, whatever the steps have
returned. -/
theorem contains_of_protected (protect : g.Protected inputs d handle)
    (near : handle.id = id ∨ ∃ role, after.scene.hasReference handle.id role id = true)
    (there : after.scene.contains id = true) : left.contains id = true :=
  c.ended.contains_of_spared w built sound (c.returns.protected_iff.1 protect) near there

end Completed

end Pipewright.PipelineGraph
