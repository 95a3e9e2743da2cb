import Pipewright.Proofs.Keyed
import Pipewright.Scene.Basic

/-! # Removing nodes from a scene
What is left of a scene when nodes are removed one after another, except those that are kept because
they are among some nodes or are referenced by one of them. Removing a node that is not kept takes
no reference away that keeps another one, so it does not matter in which order that is asked. -/

namespace Pipewright

universe u

variable {α : Type u}

/-! ## References -/

/-- The records and the references of a scene are in the order of their keys. -/
structure Scene.Sound (s : Scene α) : Prop where
  /-- The records are in the order of their ids. -/
  records : Keyed.Sorted s.records
  /-- The references of each record are in the order of their roles. -/
  references : ∀ id record, (id, record) ∈ s.records → Keyed.Sorted record.references

namespace NodeRecord

variable {r : NodeRecord α} {role target id : String}

/-- The references of a record stay in the order of their roles when a node is forgotten. -/
theorem sorted_forget (h : Keyed.Sorted r.references) (id : String) :
    Keyed.Sorted (r.forget id).references := (h.mapValues _).filter _

/-- Keep the references to some nodes only, and the roles under which there are such. -/
def restrict (r : NodeRecord α) (p : String → Bool) : NodeRecord α :=
  let left := Keyed.mapValues (List.filter p) r.references
  { r with references := left.filter fun entry => !entry.2.isEmpty }

/-- To forget a node is to keep the references to all others. -/
theorem forget_eq_restrict (r : NodeRecord α) (id : String) :
    r.forget id = r.restrict fun target => decide (target ≠ id) := rfl

/-- The kept targets of a role are those of its targets that satisfy the condition. -/
theorem targets_restrict (h : Keyed.Sorted r.references) (p : String → Bool) (role : String) :
    (r.restrict p).targets role = (r.targets role).filter p := by
  unfold targets restrict
  simp only
  rw [(h.mapValues _).lookup_filter String.lt_irrefl, Keyed.lookup_mapValues]
  cases Keyed.lookup role r.references with
  | none => rfl
  | some targets =>
    rw [Option.map_some, Option.filter_some, Option.getD_some]
    cases targets.filter p with
    | nil => rfl
    | cons first rest => rfl

/-- A forgotten node is dropped from the targets of every role, and nothing else is. -/
theorem targets_forget (h : Keyed.Sorted r.references) (id role : String) :
    (r.forget id).targets role = (r.targets role).filter fun target => decide (target ≠ id) := by
  rw [forget_eq_restrict, targets_restrict h]

end NodeRecord

namespace Scene

variable {s : Scene α} {id other holder role target : String}

/-- The roles under which a node references others; a node that is not there has none. -/
def rolesOf (s : Scene α) (holder : String) : List String :=
  match s.roles holder with
  | .ok roles => roles
  | .error _ => []

/-- Whether a node references another one under some role. -/
def refers (s : Scene α) (holder target : String) : Bool :=
  (s.rolesOf holder).any fun role => s.hasReference holder role target

/-- A node references another one exactly if it does so under some role. -/
theorem refers_iff : s.refers holder target = true ↔
    ∃ role, s.hasReference holder role target = true := by
  unfold refers
  rw [List.any_eq_true]
  constructor
  · rintro ⟨role, -, h⟩
    exact ⟨role, h⟩
  · rintro ⟨role, h⟩
    refine ⟨role, ?_, h⟩
    unfold hasReference at h
    unfold rolesOf roles record
    cases found : s.record? holder with
    | none => simp [found] at h
    | some r =>
      simp only [found] at h
      -- a role without an entry has no targets
      have there : (Keyed.lookup role r.references).isSome := by
        unfold NodeRecord.targets at h
        cases e : Keyed.lookup role r.references with
        | none => simp [e] at h
        | some targets => rfl
      exact Keyed.isSome_lookup_iff.1 there

/-! ## One removal -/

/-- The record of a node after a removal. -/
theorem record?_removeNode (id other : String) :
    (s.removeNode id).record? other =
      if other = id then none
      else if s.contains id then (s.record? other).map (NodeRecord.forget · id)
      else s.record? other := by
  unfold removeNode record?
  by_cases e : other = id
  · rw [if_pos e, e]
    split
    · rw [Keyed.lookup_mapValues, Keyed.lookup_erase_self, Option.map_none]
    · next absent =>
      rw [Bool.not_eq_true, contains, Keyed.contains, Option.isSome_eq_false_iff,
        Option.isNone_iff_eq_none] at absent
      exact absent
  · rw [if_neg e]
    split
    · rw [Keyed.lookup_mapValues, Keyed.lookup_erase_of_ne e]
    · rfl

/-- A node is there after a removal if it was there before and is another one. -/
theorem contains_removeNode (id other : String) :
    (s.removeNode id).contains other = (s.contains other && other != id) := by
  have opened : ∀ s : Scene α, s.contains other = (s.record? other).isSome := fun _ => rfl
  rw [opened, opened, record?_removeNode]
  by_cases e : other = id
  · simp [e]
  · rw [if_neg e]
    split
    · simp [e]
    · simp [e]

/-- A removal keeps a scene sound. -/
theorem Sound.removeNode (h : s.Sound) (id : String) : (s.removeNode id).Sound := by
  unfold Scene.removeNode
  split
  · constructor
    · have left := (h.records.erase id).mapValues fun record => record.forget id
      exact left
    · intro other record m
      obtain ⟨⟨_, before⟩, there, e⟩ := List.mem_map.1 m
      cases e
      exact NodeRecord.sorted_forget (h.references _ before (List.mem_filter.1 there).1) id
  · exact h

/-- A reference is there after a removal if it was there before and neither end is removed. -/
theorem hasReference_removeNode (h : s.Sound) (id : String) :
    (s.removeNode id).hasReference holder role target =
      (s.hasReference holder role target && holder != id &&
        !(s.contains id && target == id)) := by
  unfold hasReference
  rw [record?_removeNode]
  by_cases e : holder = id
  · simp [e]
  · rw [if_neg e]
    cases there : s.contains id with
    | false => simp [e]
    | true =>
      rw [if_pos rfl]
      cases found : s.record? holder with
      | none => rfl
      | some r =>
        have sorted := h.references _ r (Keyed.mem_of_lookup found)
        simp only [Option.map_some, NodeRecord.targets_forget sorted]
        rw [Bool.eq_iff_iff]
        simp [e]

/-! ## Removing what is not kept -/

/-- Whether a node is one of some nodes, or is referenced by one of them. -/
def keeps (s : Scene α) (kept : List NodeHandle) (id : String) : Bool :=
  kept.any fun handle => handle.id == id || s.refers handle.id id

/-- Remove a node, unless it is kept. -/
def release (s : Scene α) (kept : List NodeHandle) (id : String) : Scene α :=
  if s.keeps kept id then s else s.removeNode id

/-- Remove nodes one after another, unless they are kept. -/
def releaseAll (s : Scene α) (kept : List NodeHandle) (ids : List String) : Scene α :=
  ids.foldl (fun s id => s.release kept id) s

variable {kept : List NodeHandle} {ids : List String}

/-- A node is kept exactly if it is one of the nodes or one of them references it. -/
theorem keeps_iff : s.keeps kept id = true ↔
    ∃ handle ∈ kept, handle.id = id ∨ s.refers handle.id id = true := by
  simp [keeps, List.any_eq_true]

/-- Removing a node that is not kept changes nothing about which nodes are kept. -/
theorem keeps_release (h : s.Sound) (id other : String) :
    (s.release kept id).keeps kept other = s.keeps kept other := by
  unfold release
  split
  · rfl
  · next loose =>
    rw [Bool.eq_iff_iff, keeps_iff, keeps_iff]
    refine exists_congr fun handle => and_congr_right fun m => or_congr_right ?_
    rw [refers_iff, refers_iff]
    refine exists_congr fun role => ?_
    -- the holder is not removed, and a target that is would be kept
    have holder : handle.id ≠ id := fun e => loose (keeps_iff.2 ⟨handle, m, .inl e⟩)
    have target : s.hasReference handle.id role other = true → other ≠ id := by
      rintro found rfl
      exact loose (keeps_iff.2 ⟨handle, m, .inr (refers_iff.2 ⟨role, found⟩)⟩)
    rw [hasReference_removeNode h]
    cases found : s.hasReference handle.id role other with
    | false => simp
    | true => simp [holder, target found]

/-- Releasing keeps a scene sound. -/
theorem Sound.release (h : s.Sound) (kept : List NodeHandle) (id : String) :
    (s.release kept id).Sound := by
  unfold Scene.release
  split
  · exact h
  · exact h.removeNode id

/-- Releasing nodes leaves exactly those that are not released or are kept. -/
theorem contains_releaseAll (h : s.Sound) :
    (s.releaseAll kept ids).contains other = true ↔
      s.contains other = true ∧ (other ∈ ids → s.keeps kept other = true) := by
  induction ids generalizing s with
  | nil => simp [releaseAll]
  | cons id ids ih =>
    have step : s.releaseAll kept (id :: ids) = (s.release kept id).releaseAll kept ids := rfl
    have first : (s.release kept id).contains other = true ↔
        s.contains other = true ∧ (other = id → s.keeps kept other = true) := by
      unfold release
      cases keep : s.keeps kept id with
      | true =>
        rw [if_pos rfl]
        refine ⟨fun there => ⟨there, ?_⟩, And.left⟩
        rintro rfl
        exact keep
      | false =>
        rw [if_neg Bool.false_ne_true, contains_removeNode]
        simp only [Bool.and_eq_true, bne_iff_ne, ne_eq, and_congr_right_iff]
        refine fun _ => ⟨fun ne e => absurd e ne, ?_⟩
        rintro kept rfl
        rw [kept rfl] at keep
        exact Bool.noConfusion keep
    rw [step, ih (h.release kept id), first, keeps_release h, List.mem_cons]
    grind

/-- Releasing nodes takes away exactly the references at one end of which a node was removed. -/
theorem hasReference_releaseAll (h : s.Sound) :
    (s.releaseAll kept ids).hasReference holder role target = true ↔
      s.hasReference holder role target = true ∧
        (holder ∈ ids → s.keeps kept holder = true) ∧
        (s.contains target = true → target ∈ ids → s.keeps kept target = true) := by
  induction ids generalizing s with
  | nil => simp [releaseAll]
  | cons id ids ih =>
    have step : s.releaseAll kept (id :: ids) = (s.release kept id).releaseAll kept ids := rfl
    rw [step, ih (h.release kept id), keeps_release h, keeps_release h]
    unfold release
    cases keep : s.keeps kept id with
    -- a node that is kept is not removed, so the scene stays as it is
    | true =>
      have holder' : holder = id → s.keeps kept holder = true := fun e => e ▸ keep
      have target' : target = id → s.keeps kept target = true := fun e => e ▸ keep
      rw [if_pos rfl, List.mem_cons, List.mem_cons]
      grind
    | false =>
      have holder' : s.keeps kept holder = true → holder ≠ id := by
        rintro kept rfl
        rw [kept] at keep
        exact Bool.noConfusion keep
      have target' : s.keeps kept target = true → target ≠ id := by
        rintro kept rfl
        rw [kept] at keep
        exact Bool.noConfusion keep
      have live : target = id → s.contains target = s.contains id := fun e => e ▸ rfl
      rw [if_neg Bool.false_ne_true, hasReference_removeNode h, contains_removeNode, List.mem_cons,
        List.mem_cons]
      simp only [Bool.and_eq_true, bne_iff_ne, ne_eq, Bool.not_eq_true', Bool.and_eq_false_imp,
        beq_eq_false_iff_ne]
      -- a target that is not there cannot be removed, so its references stay
      by_cases e : target = id
      · rw [← live e]
        grind
      · grind

end Scene

end Pipewright
