import Pipewright.Proofs.Scene.Calls

/-! # What removals leave
What is left of a scene when nodes are removed one after another is told by which nodes these are:
all others, without the references to the removed ones and without the roles under which none is
left. So neither the order of the removals matters, nor whether a node is removed twice or was never
there. -/

namespace Pipewright

universe u

/-! ## Records -/

namespace NodeRecord

variable {α : Type u} {r : NodeRecord α}

/-- References that are kept twice satisfy both conditions. -/
theorem restrict_restrict (p q : String → Bool) :
    (r.restrict p).restrict q = r.restrict fun target => p target && q target := by
  have each : ∀ entries : List (String × List String),
      (Keyed.mapValues (List.filter q) ((Keyed.mapValues (List.filter p) entries).filter
        fun entry => !entry.2.isEmpty)).filter (fun entry => !entry.2.isEmpty) =
      (Keyed.mapValues (List.filter fun target => p target && q target) entries).filter
        fun entry => !entry.2.isEmpty := by
    intro entries
    induction entries with
    | nil => rfl
    | cons entry rest ih =>
      obtain ⟨role, targets⟩ := entry
      have both : (targets.filter p).filter q = targets.filter fun target => p target && q target := by
        rw [List.filter_filter]
        exact List.filter_congr fun target _ => Bool.and_comm _ _
      simp only [Keyed.mapValues, List.map_cons, List.filter_cons] at ih ⊢
      cases first : targets.filter p with
      -- a role that is dropped at once has no targets left in the end
      | nil =>
        rw [first, List.filter_nil] at both
        rw [← both]
        exact ih
      | cons target others =>
        rw [← both, first]
        simp only [List.isEmpty_cons, Bool.not_false, if_true, List.map_cons, List.filter_cons]
        rw [ih]
  unfold restrict
  simp only [each]

/-- A tidy record stays as it is when the references to all nodes that are there are kept. -/
theorem Tidy.restrict_eq {live : String → Prop} (h : r.Tidy live) {p : String → Bool}
    (all : ∀ target, live target → p target = true) : r.restrict p = r := by
  have same : ∀ entry ∈ r.references, (entry.1, entry.2.filter p) = entry := by
    intro entry m
    have kept := List.filter_eq_self.2 fun target m' =>
      all target ((h.targets entry.1 entry.2 m).live target m')
    rw [kept]
  have some' : ∀ entry ∈ r.references, (!entry.2.isEmpty) = true := by
    intro entry m
    simpa using (h.targets entry.1 entry.2 m).some
  unfold restrict Keyed.mapValues
  simp only
  rw [List.map_congr_left same, List.map_id', List.filter_eq_self.2 some']

/-- The kept roles are the former roles with a target that satisfies the condition. -/
theorem keys_restrict (h : Keyed.Sorted r.references) (p : String → Bool) :
    Keyed.keys (r.restrict p).references =
      (Keyed.keys r.references).filter fun role => (r.targets role).any p := by
  have each : ∀ entry ∈ r.references,
      (!(entry.2.filter p).isEmpty) = (r.targets entry.1).any p := by
    intro entry m
    have found := h.lookup_of_mem String.lt_irrefl m
    unfold targets
    rw [found, Option.getD_some, Bool.eq_iff_iff]
    simp [List.any_eq_true, List.filter_eq_nil_iff]
  unfold Keyed.keys restrict Keyed.mapValues
  simp only
  rw [List.filter_map, List.filter_map, List.map_map]
  exact congrArg (List.map Prod.fst) (List.filter_congr each)

end NodeRecord

/-! ## Scenes -/

namespace Scene

variable {α : Type u} {s : Scene α} {ids ids' : List String}

/-- A scene without some nodes, the references to them and the roles under which none is left. -/
def without (s : Scene α) (ids : List String) : Scene α :=
  { s with
    records := Keyed.mapValues (fun r => r.restrict fun target => decide (target ∉ ids))
      (s.records.filter fun entry => decide (entry.1 ∉ ids)) }

/-- It matters only which nodes are missing. -/
theorem without_congr (same : ∀ id, id ∈ ids ↔ id ∈ ids') : s.without ids = s.without ids' := by
  unfold without
  simp only [same]

/-- A scene without some nodes and without others is without all of them. -/
theorem without_without : (s.without ids).without ids' = s.without (ids ++ ids') := by
  have both : ∀ id, decide (id ∉ ids ++ ids') = (decide (id ∉ ids) && decide (id ∉ ids')) := by
    intro id
    simp [List.mem_append, not_or]
  unfold without Keyed.mapValues
  simp only [both]
  rw [List.filter_map, List.map_map, List.filter_filter]
  congr 1
  have each : ∀ entry : String × NodeRecord α,
      ((entry.1, (entry.2.restrict fun target => decide (target ∉ ids)).restrict
        fun target => decide (target ∉ ids')) : String × NodeRecord α) =
      (entry.1, entry.2.restrict fun target => decide (target ∉ ids) && decide (target ∉ ids')) :=
    fun entry => by rw [NodeRecord.restrict_restrict]
  rw [List.filter_congr fun entry _ => Bool.and_comm _ _]
  exact List.map_congr_left fun entry _ => each entry

/-- An intact scene is without nodes that are not there. -/
theorem Intact.without_eq (h : s.Intact) (absent : ∀ id ∈ ids, s.contains id = false) :
    s.without ids = s := by
  have there : ∀ id, s.contains id = true → decide (id ∉ ids) = true := by
    intro id there
    refine decide_eq_true fun m => ?_
    rw [absent id m] at there
    cases there
  have kept : ∀ entry ∈ s.records, decide (entry.1 ∉ ids) = true := fun entry m =>
    there entry.1 (Keyed.contains_iff.2 (List.mem_map_of_mem m))
  have same : ∀ entry ∈ s.records,
      (entry.1, entry.2.restrict fun target => decide (target ∉ ids)) = entry := by
    intro entry m
    rw [(h.tidy entry.1 entry.2 m).restrict_eq there]
  unfold without Keyed.mapValues
  rw [List.filter_eq_self.2 kept, List.map_congr_left same, List.map_id']

/-- Removing a node from an intact scene leaves the scene without it, whether it was there or not. -/
theorem Intact.removeNode_eq (h : s.Intact) (id : String) : s.removeNode id = s.without [id] := by
  have alone : ∀ other, decide (other ∉ [id]) = decide (other ≠ id) := by
    intro other
    simp only [List.mem_singleton]
  cases there : s.contains id with
  | false =>
    have absent : ∀ other ∈ [id], s.contains other = false := by
      intro other m
      rw [List.mem_singleton.1 m, there]
    rw [h.without_eq absent, Scene.removeNode, if_neg (by rw [there]; exact Bool.false_ne_true)]
  | true =>
    rw [Scene.removeNode, if_pos there]
    unfold without
    simp only [alone]
    rfl

/-! ## What can be read -/

/-- The nodes that are left. -/
theorem ids_without : (s.without ids).ids = s.ids.filter fun id => decide (id ∉ ids) := by
  unfold Scene.ids without
  simp only [Keyed.keys_mapValues]
  unfold Keyed.keys
  rw [List.filter_map]
  rfl

/-- Nodes that are left are those that were there and are not missing. -/
theorem contains_without {id : String} :
    (s.without ids).contains id = true ↔ s.contains id = true ∧ id ∉ ids := by
  have listed : ∀ s : Scene α, s.contains id = true ↔ id ∈ s.ids := fun _ => Keyed.contains_iff
  rw [listed, listed, ids_without, List.mem_filter, decide_eq_true_iff]

/-- What is stored of a node that is left. -/
theorem Intact.record_without (h : s.Intact) {id : String} (left : id ∉ ids) :
    (s.without ids).record id =
      (s.record id).map fun r => r.restrict fun target => decide (target ∉ ids) := by
  have found : (s.without ids).record? id =
      (s.record? id).map fun r => r.restrict fun target => decide (target ∉ ids) := by
    unfold record? without
    simp only
    rw [Keyed.lookup_mapValues, h.records.lookup_filter String.lt_irrefl]
    cases Keyed.lookup id s.records with
    | none => rfl
    | some r => simp [left]
  unfold record
  rw [found]
  cases s.record? id <;> rfl

/-- Among the targets of a node those are not missing that are left. -/
theorem Intact.filter_without (h : s.Intact) {id : String} {r : NodeRecord α}
    (found : s.record id = .ok r) (role : String) :
    (r.targets role).filter (fun target => decide (target ∉ ids)) =
      (r.targets role).filter (s.without ids).contains := by
  obtain ⟨-, live⟩ := (h.tidy_of_record found).targets_spec role
  refine List.filter_congr fun target m => ?_
  rw [Bool.eq_iff_iff, contains_without, decide_eq_true_iff]
  exact ⟨fun left => ⟨live target m, left⟩, And.right⟩

/-- The targets of a node that is left are those of its targets that are left. -/
theorem Intact.references_without (h : s.Intact) {id : String} (left : id ∉ ids) (role : String) :
    (s.without ids).references id role =
      (s.references id role).map (List.filter (s.without ids).contains) := by
  unfold references
  rw [h.record_without left]
  cases found : s.record id with
  | error e => rfl
  | ok r =>
    simp only [Except.map]
    rw [NodeRecord.targets_restrict (h.tidy_of_record found).sorted, h.filter_without found]

/-- The roles of a node that is left are those under which it references a node that is left. -/
theorem Intact.roles_without (h : s.Intact) {id : String} (left : id ∉ ids) :
    (s.without ids).roles id = (s.roles id).map
      (List.filter fun role => (s.without ids).ids.any (s.hasReference id role)) := by
  unfold roles
  rw [h.record_without left]
  cases found : s.record id with
  | error e => rfl
  | ok r =>
    have there := record_eq_ok_iff.1 found
    simp only [Except.map]
    rw [NodeRecord.keys_restrict (h.tidy_of_record found).sorted]
    congr 1
    refine List.filter_congr fun role _ => ?_
    obtain ⟨-, live⟩ := (h.tidy_of_record found).targets_spec role
    unfold hasReference
    simp only [there]
    rw [Bool.eq_iff_iff, List.any_eq_true, List.any_eq_true, ids_without]
    constructor
    · rintro ⟨target, m, kept⟩
      exact ⟨target, List.mem_filter.2 ⟨Keyed.contains_iff.1 (live target m), kept⟩,
        List.contains_iff_mem.2 m⟩
    · rintro ⟨target, m, listed⟩
      exact ⟨target, List.contains_iff_mem.1 listed, (List.mem_filter.1 m).2⟩

/-! ## Calls -/

namespace Call

/-- Removing nodes one after another leaves the scene without them. -/
theorem performAll_removeNode (ids : List String) {w : World} (h : w.scene.Intact) :
    performAll w (ids.map .removeNode) = { w with scene := w.scene.without ids } := by
  induction ids generalizing w with
  | nil =>
    have all : w.scene.without [] = w.scene :=
      h.without_eq fun id m => absurd m List.not_mem_nil
    rw [all]
    rfl
  | cons id ids ih =>
    have first : ((Call.removeNode id).perform.run.run w).2 =
        { w with scene := w.scene.removeNode id } := rfl
    have opened : performAll w ((id :: ids).map .removeNode) =
        performAll { w with scene := w.scene.removeNode id } (ids.map .removeNode) := by
      rw [← first]
      rfl
    have intact : ({ w with scene := w.scene.removeNode id } : World).scene.Intact :=
      h.removeNode id
    rw [opened, ih intact, h.removeNode_eq id, without_without, List.singleton_append]

/-- Whatever was called before, removing nodes one after another leads to the same world in whatever order,
however often each is named and whether it is there or not. What is left are the other nodes with their
classes, names and contents; each references, under each role and in the former order, those of its
former targets that are left, and has the roles under which there are such. -/
theorem removals_in_any_order (calls : List Call) (ids : List String) :
    let w := performAll .empty calls
    let left := performAll w (ids.map .removeNode)
    (∀ ids' : List String, (∀ id, id ∈ ids' ↔ id ∈ ids) →
      performAll w (ids'.map .removeNode) = left) ∧
    left = { w with scene := left.scene } ∧ left.scene.counters = w.scene.counters ∧
    left.scene.ids = w.scene.ids.filter (fun id => decide (id ∉ ids)) ∧
    ∀ id, left.scene.contains id = true →
      left.scene.handle id = w.scene.handle id ∧ left.scene.name id = w.scene.name id ∧
      left.scene.content id = w.scene.content id ∧
      (∀ role, left.scene.references id role =
        (w.scene.references id role).map (List.filter left.scene.contains)) ∧
      left.scene.roles id = (w.scene.roles id).map
        (List.filter fun role => left.scene.ids.any (w.scene.hasReference id role)) := by
  intro w left
  have h : w.scene.Intact := intact_performAll calls intact_empty
  have closed : ∀ ids, performAll w (ids.map .removeNode) =
      { w with scene := w.scene.without ids } := fun ids => performAll_removeNode ids h
  have scene : left.scene = w.scene.without ids := by
    show (performAll w (ids.map .removeNode)).scene = _
    rw [closed]
  refine ⟨fun ids' same => ?_, ?_, ?_, ?_, fun id there => ?_⟩
  · show performAll w (ids'.map .removeNode) = performAll w (ids.map .removeNode)
    rw [closed, closed, without_congr same]
  · rw [scene]
    exact closed ids
  · rw [scene]
    rfl
  · rw [scene]
    exact ids_without
  · rw [scene] at there ⊢
    have apart := (contains_without.1 there).2
    have record := h.record_without apart
    refine ⟨?_, ?_, ?_, h.references_without apart, h.roles_without apart⟩
    · unfold handle
      rw [record]
      cases w.scene.record id <;> rfl
    · unfold Scene.name
      rw [record]
      cases w.scene.record id <;> rfl
    · unfold content
      rw [record]
      cases w.scene.record id <;> rfl

/-- Removing a node that is referenced, one that is not there and the first one again leaves what removing
them in another order leaves: the holder of a reference to the removed node keeps its other target, and the
role under which the removed node was the only target is gone. -/
theorem removals_in_any_order_of_referenced :
    let calls := [.addNode .root "top", .addNode .root "first", .addNode .root "second",
      .addReference "Node1" "part" "Node2", .addReference "Node1" "part" "Node3",
      .addReference "Node3" "next" "Node2"]
    let w := performAll .empty calls
    let left := performAll w (["Node2", "Node9", "Node2"].map .removeNode)
    (∀ id, id ∈ ["Node9", "Node2"] ↔ id ∈ ["Node2", "Node9", "Node2"]) ∧
    performAll w (["Node9", "Node2"].map .removeNode) = left ∧
    left.scene.references "Node1" "part" = .ok ["Node3"] ∧ left.scene.roles "Node3" = .ok [] := by
  intro calls w left
  have same : ∀ id, id ∈ ["Node9", "Node2"] ↔ id ∈ ["Node2", "Node9", "Node2"] := by
    intro id
    simp only [List.mem_cons, List.not_mem_nil, or_false]
    grind
  obtain ⟨order, -, -, -, each⟩ := removals_in_any_order calls ["Node2", "Node9", "Node2"]
  obtain ⟨-, -, -, targets, -⟩ := each "Node1" (by decide +kernel)
  obtain ⟨-, -, -, -, roles⟩ := each "Node3" (by decide +kernel)
  refine ⟨same, order _ same, ?_, ?_⟩
  · rw [targets]
    rfl
  · rw [roles]
    rfl

end Call

end Scene

end Pipewright
