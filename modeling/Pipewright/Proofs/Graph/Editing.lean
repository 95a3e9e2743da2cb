import Pipewright.Proofs.Graph.Steps

/-! # Graphs that are edited
While a pipeline is put together its graph is edited in any order and any number of times: nodes are
added, replaced and changed, connections are drawn and removed. Which connections there are in the
end, and in which order, can be told from the edits alone: a connection stands where it was drawn for
the first time since it was last removed. -/

namespace Pipewright.PipelineGraph

/-- A connection, from a producing to a consuming slot. -/
abbrev Edge : Type := SlotKey × SlotKey

/-- An edit of a graph. -/
inductive Edit where
  /-- A node is added, or its attributes are replaced. -/
  | addNode (key : SlotKey) (attrs : SlotAttrs)
  /-- An overall input is added. -/
  | addInput (name : String) (t : DataType) (position : Nat)
  /-- An overall output is added. -/
  | addOutput (lastStep : Nat) (name : String) (t : DataType) (position : Nat)
  /-- A parameter is added. -/
  | addParameter (step : Nat) (operation slot : String)
  /-- A parameter is added with a literal. -/
  | addFixed (step : Nat) (operation slot : String) (v : Value)
  /-- The return value of an operation is added. -/
  | addReturn (step : Nat) (operation : String)
  /-- A field of the return value of an operation is added. -/
  | addReturnField (step : Nat) (operation field : String)
  /-- The attributes of a node are changed. -/
  | change (key : SlotKey) (f : SlotAttrs → SlotAttrs)
  /-- A connection is drawn. -/
  | draw (edge : Edge)
  /-- A connection is removed. -/
  | remove (edge : Edge)

/-- The edit is about a node. -/
def Edit.OfNode : Edit → Prop
  | .draw _ => False
  | .remove _ => False
  | _ => True

/-- Edit a graph. -/
def perform (g : PipelineGraph) : Edit → PipelineGraph
  | .addNode key attrs => g.addNode key attrs
  | .addInput name t position => g.addInput name t position
  | .addOutput lastStep name t position => g.addOutput lastStep name t position
  | .addParameter step operation slot => g.addParameter step operation slot
  | .addFixed step operation slot v => g.addFixed step operation slot v
  | .addReturn step operation => g.addReturn step operation
  | .addReturnField step operation field => g.addReturnField step operation field
  | .change key f => g.modifyNode key f
  | .draw edge => g.addEdge edge.1 edge.2
  | .remove edge => (g.disconnect edge.1 edge.2).2

/-- Edit the graph without nodes, one edit after another. -/
def performAll (edits : List Edit) : PipelineGraph := edits.foldl perform empty

/-- The last edit is made on what the others lead to. -/
theorem performAll_snoc (edits : List Edit) (edit : Edit) :
    performAll (edits ++ [edit]) = (performAll edits).perform edit := by
  rw [performAll, List.foldl_append, List.foldl_cons, List.foldl_nil]
  rfl

variable {g : PipelineGraph} {edits : List Edit} {edit : Edit} {edge : Edge} {i : Nat}

/-- An edit of a graph that edits lead to gives another one. -/
theorem Reachable.perform (h : Reachable g) (edit : Edit) : Reachable (g.perform edit) := by
  cases edit with
  | addNode key attrs => exact h.addNode key attrs
  | addInput name t position => exact h.addNode _ _
  | addOutput lastStep name t position => exact h.addNode _ _
  | addParameter step operation slot => exact h.addNode _ _
  | addFixed step operation slot v => exact h.addNode _ _
  | addReturn step operation => exact h.addNode _ _
  | addReturnField step operation field => exact h.addNode _ _
  | change key f => exact h.modifyNode key f
  | draw edge => exact h.addEdge edge.1 edge.2
  | remove edge => exact h.removeEdge edge.1 edge.2

/-- Edits lead to what they are performed one after another for. -/
theorem reachable_performAll (edits : List Edit) : Reachable (performAll edits) := by
  induction edits using List.reverseRecOn with
  | nil => exact .empty
  | append_singleton edits edit ih =>
    rw [performAll_snoc]
    exact ih.perform edit

/-! ## One edit -/

/-- An edit of a node draws and removes no connection. -/
theorem edges_perform (h : edit.OfNode) : (g.perform edit).edges = g.edges := by
  cases edit with
  | draw edge => exact h.elim
  | remove edge => exact h.elim
  | _ => rfl

/-- A connection that is drawn comes behind all others, unless it is there. -/
theorem edges_addEdge (g : PipelineGraph) (source target : SlotKey) :
    (g.addEdge source target).edges =
      if (source, target) ∈ g.edges then g.edges else g.edges ++ [(source, target)] := by
  have same : ((g.ensureNode source).ensureNode target).edges = g.edges := by
    rw [edges_ensureNode, edges_ensureNode]
  unfold addEdge
  simp only [List.contains_iff_mem, same]
  by_cases there : (source, target) ∈ g.edges
  · rw [if_pos there, if_pos there, same]
  · rw [if_neg there, if_neg there]

/-- A connection that is removed is no longer there, and the others are. -/
theorem mem_edges_removeEdge {other : Edge} :
    other ∈ (g.removeEdge edge.1 edge.2).edges ↔ other ∈ g.edges ∧ other ≠ edge := by
  unfold removeEdge
  rw [List.mem_filter, decide_eq_true_iff]

/-- Ensuring a node keeps the attributes of those that are there. -/
theorem attrs?_ensureNode {key other : SlotKey} (there : other ∈ g.keys) :
    (g.ensureNode key).attrs? other = g.attrs? other := by
  unfold ensureNode
  by_cases known : Keyed.contains key g.nodes = true
  · rw [if_pos known]
  · have differ : other ≠ key := by
      rintro rfl
      exact known (Keyed.contains_iff.2 there)
    rw [if_neg known]
    exact Keyed.lookup_insert_of_ne differ _ _

/-- Drawing a connection keeps the attributes of the nodes that are there. -/
theorem attrs?_addEdge {source target key : SlotKey} (there : key ∈ g.keys) :
    (g.addEdge source target).attrs? key = g.attrs? key := by
  have still : key ∈ (g.ensureNode source).keys := mem_keys_ensureNode.2 (.inr there)
  have both : ((g.ensureNode source).ensureNode target).attrs? key = g.attrs? key := by
    rw [attrs?_ensureNode still, attrs?_ensureNode there]
  unfold addEdge
  simp only
  split
  · exact both
  · exact both

/-- Two slots were connected exactly if removing their connection leaves fewer of them. -/
theorem disconnect_iff {source target : SlotKey} :
    (g.disconnect source target).1 = true ↔ (source, target) ∈ g.edges := by
  unfold disconnect removeEdge
  simp only [decide_eq_true_iff]
  rw [Ne, List.length_filter_eq_length_iff]
  simp

/-- A slot has a producer exactly if one connection ends there and comes from it. -/
theorem Sound.producer?_iff (h : Sound g) {key source : SlotKey} :
    g.producer? key = some source ↔
      ∀ edge : Edge, edge ∈ g.edges ∧ edge.2 = key ↔ edge = (source, key) := by
  have ends : ∀ edge : Edge, edge ∈ g.inEdges key ↔ edge ∈ g.edges ∧ edge.2 = key := by
    intro edge
    unfold inEdges
    rw [List.mem_filter, decide_eq_true_iff]
  rw [producer?_eq_some_iff]
  simp only [← ends]
  constructor
  · intro alone edge
    rw [alone, List.mem_singleton]
  · intro alone
    have once : (g.inEdges key).Nodup := h.once.filter _
    have one : (g.inEdges key).Perm [(source, key)] := by
      rw [List.perm_ext_iff_of_nodup once (List.nodup_singleton _)]
      intro edge
      rw [alone, List.mem_singleton]
    exact List.perm_singleton.1 one

/-! ## Groups -/

/-- The groups of a sound graph are the keys of the steps that are used, one step after another. -/
theorem Sound.groups_eq (h : Sound g) : g.groups = g.usedSteps.map g.keysAt := by
  have each : ∀ run ∈ g.groups, (run.head?.map SlotKey.step).map g.keysAt = some run := by
    intro run m
    cases run with
    | nil => exact absurd rfl (List.ne_nil_of_mem_splitBy m)
    | cons key rest =>
      rw [List.head?_cons, Option.map_some, Option.map_some, ← h.eq_keysAt m List.mem_cons_self]
  unfold usedSteps
  rw [List.map_filterMap, List.filterMap_congr each, List.filterMap_some]

/-! ## The place of a connection -/

/-- A connection was drawn with an edit and is there because of it. -/
structure DrawnAt (edits : List Edit) (edge : Edge) (i : Nat) : Prop where
  /-- It was drawn with the edit. -/
  drawn : edits[i]? = some (.draw edge)
  /-- If it was drawn before, it was removed in between. -/
  fresh : ∀ j < i, edits[j]? = some (.draw edge) →
    ∃ k, j < k ∧ k < i ∧ edits[k]? = some (.remove edge)
  /-- It was not removed later. -/
  kept : ∀ k, i < k → edits[k]? ≠ some (.remove edge)

/-- An edit is the last one or one of those before it. -/
theorem getElem?_snoc {other : Edit} :
    (edits ++ [edit])[i]? = some other ↔
      edits[i]? = some other ∨ i = edits.length ∧ edit = other := by
  rcases Nat.lt_trichotomy i edits.length with l | rfl | l
  · rw [List.getElem?_append_left l]
    simp [Nat.ne_of_lt l]
  · simp
  · have beyond : (edits ++ [edit])[i]? = none := by
      rw [List.getElem?_eq_none_iff, List.length_append, List.length_singleton]
      omega
    have beyond' : edits[i]? = none := List.getElem?_eq_none_iff.2 (Nat.le_of_lt l)
    simp [beyond, beyond', Nat.ne_of_gt l]

/-- There are no more edits than there are. -/
theorem DrawnAt.lt_length (h : DrawnAt edits edge i) : i < edits.length :=
  (List.getElem?_eq_some_iff.1 h.drawn).1

/-- A connection that was drawn and not removed later has a place. -/
theorem exists_drawnAt (drawn : edits[i]? = some (.draw edge))
    (kept : ∀ k, i < k → edits[k]? ≠ some (.remove edge)) : ∃ i, DrawnAt edits edge i := by
  induction i using Nat.strong_induction_on with
  | _ i ih =>
    by_cases fresh : ∀ j < i, edits[j]? = some (.draw edge) →
        ∃ k, j < k ∧ k < i ∧ edits[k]? = some (.remove edge)
    · exact ⟨i, drawn, fresh, kept⟩
    · -- it was drawn before that, and has been there ever since
      push Not at fresh
      obtain ⟨j, l, before, stayed⟩ := fresh
      apply ih j l before
      intro k after removed
      rcases Nat.lt_trichotomy k i with l' | rfl | l'
      · exact stayed k after l' removed
      · cases drawn.symm.trans removed
      · exact kept k l' removed

/-- A connection keeps its place unless the last edit removes it. -/
theorem DrawnAt.snoc (there : DrawnAt edits edge i) (stays : edit ≠ .remove edge) :
    DrawnAt (edits ++ [edit]) edge i := by
  refine ⟨getElem?_snoc.2 (.inl there.drawn), fun j before again => ?_, fun k after removed => ?_⟩
  · have l := there.lt_length
    rcases getElem?_snoc.1 again with again | ⟨rfl, -⟩
    · obtain ⟨k, after, before', removed⟩ := there.fresh j before again
      exact ⟨k, after, before', getElem?_snoc.2 (.inl removed)⟩
    · omega
  · rcases getElem?_snoc.1 removed with removed | ⟨-, removed⟩
    · exact there.kept k after removed
    · exact stays removed

/-- A connection that has a place before the last edit had it without that edit, which did not remove
it. -/
theorem DrawnAt.of_snoc (h : DrawnAt (edits ++ [edit]) edge i) (l : i < edits.length) :
    DrawnAt edits edge i ∧ edit ≠ .remove edge := by
  have drawn : edits[i]? = some (.draw edge) := by
    rw [← h.drawn, List.getElem?_append_left l]
  refine ⟨⟨drawn, fun j before again => ?_, fun k after removed => ?_⟩, fun removed => ?_⟩
  · obtain ⟨k, after, before', removed⟩ := h.fresh j before (getElem?_snoc.2 (.inl again))
    rcases getElem?_snoc.1 removed with removed | ⟨rfl, -⟩
    · exact ⟨k, after, before', removed⟩
    · omega
  · exact h.kept k after (getElem?_snoc.2 (.inl removed))
  · exact h.kept edits.length l (getElem?_snoc.2 (.inr ⟨rfl, removed⟩))

/-- A connection has the last place if it is drawn with the last edit and had none before. -/
theorem drawnAt_length_iff : DrawnAt (edits ++ [edit]) edge edits.length ↔
    edit = .draw edge ∧ ∀ j, ¬ DrawnAt edits edge j := by
  constructor
  · intro h
    refine ⟨?_, fun j there => ?_⟩
    · rcases getElem?_snoc.1 h.drawn with old | ⟨-, new⟩
      · have := (List.getElem?_eq_some_iff.1 old).1
        omega
      · exact new
    · obtain ⟨k, after, before, removed⟩ :=
        h.fresh j there.lt_length (getElem?_snoc.2 (.inl there.drawn))
      rcases getElem?_snoc.1 removed with removed | ⟨rfl, -⟩
      · exact there.kept k after removed
      · omega
  · rintro ⟨new, absent⟩
    refine ⟨getElem?_snoc.2 (.inr ⟨rfl, new⟩), fun j before again => ?_,
      fun k after removed => ?_⟩
    · -- if it had not been removed since, it would have had a place
      by_contra never
      push Not at never
      rcases getElem?_snoc.1 again with again | ⟨rfl, -⟩
      · obtain ⟨j', there⟩ := exists_drawnAt again fun k after removed =>
          never k after (List.getElem?_eq_some_iff.1 removed).1 (getElem?_snoc.2 (.inl removed))
        exact absent j' there
      · omega
    · rcases getElem?_snoc.1 removed with removed | ⟨rfl, -⟩
      · have := (List.getElem?_eq_some_iff.1 removed).1
        omega
      · omega

/-- What the last edit does to the places of connections: a connection that it removes has none any
more, and a connection that it draws has the last one, unless it had one before. -/
theorem drawnAt_snoc_iff : DrawnAt (edits ++ [edit]) edge i ↔
    DrawnAt edits edge i ∧ edit ≠ .remove edge ∨
      i = edits.length ∧ edit = .draw edge ∧ ∀ j, ¬ DrawnAt edits edge j := by
  constructor
  · intro h
    have within := h.lt_length
    rw [List.length_append, List.length_singleton] at within
    rcases Nat.lt_or_eq_of_le (Nat.le_of_lt_succ within) with l | rfl
    · exact .inl (h.of_snoc l)
    · exact .inr ⟨rfl, drawnAt_length_iff.1 h⟩
  · rintro (⟨there, stays⟩ | ⟨rfl, new⟩)
    · exact there.snoc stays
    · exact drawnAt_length_iff.2 new

/-- An edit of a node leaves the places of connections as they are. -/
theorem drawnAt_snoc_of_ofNode (about : edit.OfNode) :
    DrawnAt (edits ++ [edit]) edge i ↔ DrawnAt edits edge i := by
  rw [drawnAt_snoc_iff]
  constructor
  · rintro (⟨there, -⟩ | ⟨-, rfl, -⟩)
    · exact there
    · exact about.elim
  · intro there
    refine .inl ⟨there, ?_⟩
    rintro rfl
    exact about

/-- Drawing a connection that has no place gives it the last one. -/
theorem drawnAt_snoc_draw_iff {other : Edge} (absent : ∀ j, ¬ DrawnAt edits edge j) :
    DrawnAt (edits ++ [.draw edge]) other i ↔
      DrawnAt edits other i ∨ i = edits.length ∧ other = edge := by
  rw [drawnAt_snoc_iff]
  constructor
  · rintro (⟨old, -⟩ | ⟨last, same, -⟩)
    · exact .inl old
    · cases same
      exact .inr ⟨last, rfl⟩
  · rintro (old | ⟨last, rfl⟩)
    · exact .inl ⟨old, nofun⟩
    · exact .inr ⟨last, rfl, absent⟩

/-- Drawing a connection again that has a place changes no places. -/
theorem drawnAt_snoc_draw_again_iff {other : Edge} {j : Nat} (there : DrawnAt edits edge j) :
    DrawnAt (edits ++ [.draw edge]) other i ↔ DrawnAt edits other i := by
  rw [drawnAt_snoc_iff]
  constructor
  · rintro (⟨old, -⟩ | ⟨-, same, absent⟩)
    · exact old
    · cases same
      exact absurd there (absent j)
  · intro old
    exact .inl ⟨old, nofun⟩

/-- Removing a connection takes its place away. -/
theorem drawnAt_snoc_remove_iff {other : Edge} :
    DrawnAt (edits ++ [.remove edge]) other i ↔ DrawnAt edits other i ∧ other ≠ edge := by
  rw [drawnAt_snoc_iff]
  simp [eq_comm]

/-! ## The order of connections -/

/-- Some connections are those that edits leave, in the order in which they were drawn. -/
structure InOrder (edits : List Edit) (edges : List Edge) : Prop where
  /-- A connection is there exactly if it was drawn and is there because of that. -/
  present : ∀ edge, edge ∈ edges ↔ ∃ i, DrawnAt edits edge i
  /-- One connection stands before another if it was drawn before it. -/
  ordered : edges.Pairwise fun edge next =>
    ∀ i j, DrawnAt edits edge i → DrawnAt edits next j → i < j

namespace InOrder

variable {edges : List Edge}

/-- Without edits there are no connections. -/
theorem nil : InOrder [] [] where
  present edge := by
    constructor
    · intro m
      cases m
    · rintro ⟨i, there⟩
      cases there.drawn
  ordered := .nil

/-- Edits that give the same places to connections leave the same ones. -/
theorem congr {edits' : List Edit} (h : InOrder edits edges)
    (same : ∀ edge i, DrawnAt edits' edge i ↔ DrawnAt edits edge i) : InOrder edits' edges where
  present edge := by
    simp only [same]
    exact h.present edge
  ordered := by
    simp only [same]
    exact h.ordered

/-- A connection that is drawn is put behind the others, unless it is there. -/
theorem draw (h : InOrder edits edges) (edge : Edge) :
    InOrder (edits ++ [.draw edge]) (if edge ∈ edges then edges else edges ++ [edge]) := by
  by_cases there : edge ∈ edges
  · obtain ⟨j, old⟩ := (h.present edge).1 there
    rw [if_pos there]
    exact h.congr fun other i => drawnAt_snoc_draw_again_iff old
  · have absent : ∀ j, ¬ DrawnAt edits edge j := fun j old => there ((h.present edge).2 ⟨j, old⟩)
    -- the connections that were there have their places still
    have old : ∀ other ∈ edges, ∀ i, DrawnAt (edits ++ [.draw edge]) other i →
        DrawnAt edits other i := by
      intro other m i place
      rcases (drawnAt_snoc_draw_iff absent).1 place with place | ⟨-, rfl⟩
      · exact place
      · exact absurd m there
    rw [if_neg there]
    refine ⟨fun other => ?_, List.pairwise_append.2 ⟨?_, List.pairwise_singleton _ _, ?_⟩⟩
    · simp only [drawnAt_snoc_draw_iff absent, List.mem_append, List.mem_singleton, h.present,
        exists_or, exists_eq_left]
    · refine h.ordered.imp_of_mem fun {a b} ma mb before i j atI atJ => ?_
      exact before i j (old a ma i atI) (old b mb j atJ)
    · intro other m last isLast i j atI atJ
      rw [List.mem_singleton.1 isLast] at atJ
      have l := (old other m i atI).lt_length
      rcases (drawnAt_snoc_draw_iff absent).1 atJ with atJ | ⟨rfl, -⟩
      · exact absurd atJ (absent j)
      · exact l

/-- A connection that is removed is taken out. -/
theorem remove (h : InOrder edits edges) (edge : Edge) :
    InOrder (edits ++ [.remove edge]) (edges.filter fun other => decide (other ≠ edge)) := by
  constructor
  · intro other
    simp only [drawnAt_snoc_remove_iff, List.mem_filter, decide_eq_true_iff, h.present,
      exists_and_right]
  · simp only [drawnAt_snoc_remove_iff]
    apply (h.ordered.filter _).imp
    intro a b before i j atI atJ
    exact before i j atI.1 atJ.1

end InOrder

/-- The connections of a graph are those that its edits leave, in the order in which they were
drawn. -/
theorem inOrder_performAll (edits : List Edit) : InOrder edits (performAll edits).edges := by
  induction edits using List.reverseRecOn with
  | nil => exact .nil
  | append_singleton edits edit ih =>
    rw [performAll_snoc]
    by_cases about : edit.OfNode
    · rw [edges_perform about]
      exact ih.congr fun edge i => drawnAt_snoc_of_ofNode about
    · cases edit with
      | draw edge =>
        have drawn := edges_addEdge (performAll edits) edge.1 edge.2
        exact drawn ▸ ih.draw edge
      | remove edge => exact ih.remove edge
      | _ => exact absurd trivial about

/-! ## Any edits -/

/-- What holds of the graph that edits lead to. -/
structure Follows (edits : List Edit) (g : PipelineGraph) : Prop where
  /-- Both ends of a connection are nodes. -/
  ends : ∀ edge ∈ g.edges, edge.1 ∈ g.keys ∧ edge.2 ∈ g.keys
  /-- No connection is there twice. -/
  once : g.edges.Nodup
  /-- The connections are those that are left, in the order in which they were drawn. -/
  inOrder : InOrder edits g.edges
  /-- Drawing and removing a connection keeps the attributes of nodes that are there. -/
  attrs : ∀ source target, ∀ key ∈ g.keys, (g.addEdge source target).attrs? key = g.attrs? key ∧
    (g.disconnect source target).2.attrs? key = g.attrs? key
  /-- Adding, replacing and changing nodes keeps the connections. -/
  edges : ∀ edit : Edit, edit.OfNode → (g.perform edit).edges = g.edges
  /-- Removing a connection tells whether it was there, and takes out no other. -/
  removes : ∀ edge : Edge, ((g.disconnect edge.1 edge.2).1 = true ↔ edge ∈ g.edges) ∧
    ∀ other, other ∈ (g.disconnect edge.1 edge.2).2.edges ↔ other ∈ g.edges ∧ other ≠ edge
  /-- A slot is the producer of another one exactly if the connection between them is the only one
  that ends there. -/
  producer : ∀ key source, g.producer? key = some source ↔
    ∀ edge : Edge, edge ∈ g.edges ∧ edge.2 = key ↔ edge = (source, key)
  /-- In the groups all nodes are listed, once each and in ascending order. -/
  listed : g.groups.flatten.Pairwise (· < ·) ∧
    ∀ key, key ∈ g.groups.flatten ↔ (g.attrs? key).isSome = true
  /-- No group is empty. -/
  filled : ∀ run ∈ g.groups, run ≠ []
  /-- There is one group for each step that has nodes, of all nodes of this step. -/
  grouped : ∃ steps : List Nat, steps.Pairwise (· < ·) ∧
    (∀ step, step ∈ steps ↔ ∃ key ∈ g.keys, key.step = step) ∧ g.groups = steps.map g.keysAt

/-- However a graph is edited, its connections run between nodes and are there once each, as the
edits left them and in the order in which they were drawn. Edits of connections keep the nodes as
they are, edits of nodes keep the connections, the only connection to a slot gives its producer, and
the groups list all nodes step by step. -/
theorem follows_performAll (edits : List Edit) : Follows edits (performAll edits) := by
  have sound := (reachable_performAll edits).sound
  have joined : (performAll edits).groups.flatten = (performAll edits).keys :=
    List.flatten_splitBy _ _
  exact {
    ends := sound.ends
    once := sound.once
    inOrder := inOrder_performAll edits
    attrs := fun source target key there => ⟨attrs?_addEdge there, rfl⟩
    edges := fun edit about => edges_perform about
    removes := fun edge => ⟨disconnect_iff, fun other => mem_edges_removeEdge⟩
    producer := fun key source => sound.producer?_iff
    listed := by
      rw [joined]
      exact ⟨sound.keys, fun key => Keyed.isSome_lookup_iff.symm⟩
    filled := fun run m => List.ne_nil_of_mem_splitBy m
    grouped := ⟨_, sound.usedSteps_ascending, fun step => mem_usedSteps_iff, sound.groups_eq⟩ }

/-- A connection that is drawn again after it was removed comes last. -/
example :
    let a := SlotKey.input "a"
    let b := SlotKey.input "b"
    let x := SlotKey.parameter 1 "add" "x"
    (performAll [.draw (a, x), .draw (b, x), .remove (a, x), .draw (b, x), .draw (a, x)]).edges =
      [(b, x), (a, x)] := by
  decide

end Pipewright.PipelineGraph
