import Pipewright.Proofs.Scene.Sound

/-! # Calls that change the scene
Nodes are added and removed, and their names, contents and references are changed, by calls of any
order and number, of which some fail. Whatever is called, all references lead to nodes that are
there, and a call that fails has done nothing. -/

namespace Pipewright

universe u

/-! ## Targets -/

/-- The targets of one role: there are some, none of them stands twice, and all of them are there. -/
structure IsTargets (live : String → Prop) (targets : List String) : Prop where
  /-- There are some targets. -/
  some : targets ≠ []
  /-- No target stands twice. -/
  once : targets.Nodup
  /-- All targets are there. -/
  live : ∀ target ∈ targets, live target

/-- What is there may be more. -/
theorem IsTargets.mono {live live' : String → Prop} {targets : List String}
    (h : IsTargets live targets) (sub : ∀ id, live id → live' id) : IsTargets live' targets :=
  ⟨h.some, h.once, fun target m => sub target (h.live target m)⟩

namespace NodeRecord

variable {α : Type u} {live : String → Prop} {r source : NodeRecord α}

/-- The references of a record stand in the order of their roles, each role with targets. -/
structure Tidy (live : String → Prop) (r : NodeRecord α) : Prop where
  /-- The references are in the order of their roles. -/
  sorted : Keyed.Sorted r.references
  /-- Every role has targets. -/
  targets : ∀ role targets, (role, targets) ∈ r.references → IsTargets live targets

namespace Tidy

/-- What is there may be more. -/
theorem mono {live' : String → Prop} (h : r.Tidy live) (sub : ∀ id, live id → live' id) :
    r.Tidy live' :=
  ⟨h.sorted, fun role targets m => (h.targets role targets m).mono sub⟩

/-- The targets of a role stand once and are there, if there are any. -/
theorem targets_spec (h : r.Tidy live) (role : String) :
    (r.targets role).Nodup ∧ ∀ target ∈ r.targets role, live target := by
  unfold NodeRecord.targets
  cases found : Keyed.lookup role r.references with
  | none => exact ⟨.nil, fun target m => absurd m List.not_mem_nil⟩
  | some targets =>
    have spec := h.targets role targets (Keyed.mem_of_lookup found)
    exact ⟨spec.once, spec.live⟩

/-- A role stands in a record exactly if it has a target. -/
theorem mem_keys_iff (h : r.Tidy live) {role : String} :
    role ∈ Keyed.keys r.references ↔ ∃ target, (r.targets role).contains target = true := by
  unfold NodeRecord.targets
  rw [← Keyed.isSome_lookup_iff]
  cases found : Keyed.lookup role r.references with
  | none => simp
  | some targets =>
    have spec := h.targets role targets (Keyed.mem_of_lookup found)
    obtain ⟨target, m⟩ := List.exists_mem_of_ne_nil targets spec.some
    simp only [Option.isSome_some, Option.getD_some, true_iff]
    exact ⟨target, List.contains_iff_mem.2 m⟩

/-- Another target keeps a record tidy if it is there. -/
theorem addTarget (h : r.Tidy live) (role : String) {target : String} (there : live target) :
    (r.addTarget role target).Tidy live := by
  obtain ⟨once, each⟩ := h.targets_spec role
  -- the targets of the role, with the new one
  have more : IsTargets live
      (if (r.targets role).contains target then r.targets role else r.targets role ++ [target]) := by
    by_cases known : target ∈ r.targets role
    · rw [if_pos (List.contains_iff_mem.2 known)]
      exact ⟨List.ne_nil_of_mem known, once, each⟩
    · rw [if_neg fun m => known (List.contains_iff_mem.1 m)]
      refine ⟨by simp, List.nodup_append.2 ⟨once, by simp, ?_⟩, ?_⟩
      · intro a m b m' e
        rw [List.mem_singleton] at m'
        exact known (m' ▸ e ▸ m)
      · intro a m
        rcases List.mem_append.1 m with m | m
        · exact each a m
        · rwa [List.mem_singleton.1 m]
  refine ⟨sorted_addTarget h.sorted role target, fun role' targets m => ?_⟩
  rcases Keyed.mem_of_mem_insert m with e | m
  · cases e
    exact more
  · exact h.targets role' targets m

/-- A record that forgets a node stays tidy, without it. -/
theorem forget (h : r.Tidy live) (id : String) :
    (r.forget id).Tidy fun other => live other ∧ other ≠ id := by
  refine ⟨sorted_forget h.sorted id, fun role targets m => ?_⟩
  obtain ⟨left, some'⟩ := List.mem_filter.1 m
  obtain ⟨⟨role', before⟩, there, e⟩ := List.mem_map.1 left
  cases e
  have spec := h.targets _ before there
  refine ⟨by simpa using some', spec.once.filter _, fun target m' => ?_⟩
  obtain ⟨m', apart⟩ := List.mem_filter.1 m'
  exact ⟨spec.live target m', of_decide_eq_true apart⟩

/-- Taking over the references of a tidy record keeps a record tidy. -/
theorem takeOver (h : r.Tidy live) (h' : source.Tidy live) : (r.takeOver source).Tidy live := by
  refine ⟨sorted_takeOver h'.sorted, fun role targets m => ?_⟩
  rcases Keyed.mem_of_mem_foldl_insert m with m | m
  · exact h.targets role targets (List.mem_filter.1 m).1
  · exact h'.targets role targets (List.mem_filter.1 m).1

end Tidy

end NodeRecord

/-! ## Scenes -/

namespace Scene

variable {α : Type u} {s s' : Scene α}

/-- The records of a scene stand in the order of their ids, and every reference leads to one of
them. -/
structure Intact (s : Scene α) : Prop where
  /-- The records are in the order of their ids. -/
  records : Keyed.Sorted s.records
  /-- Every record is tidy. -/
  tidy : ∀ id record, (id, record) ∈ s.records → record.Tidy fun id => s.contains id = true

/-- The scene without nodes is intact. -/
theorem intact_empty : (empty : Scene α).Intact := ⟨.nil, fun _ _ m => absurd m List.not_mem_nil⟩

namespace Intact

/-- What is stored of a node is tidy. -/
theorem tidy_of_record (h : s.Intact) {id : String} {r : NodeRecord α} (found : s.record id = .ok r) :
    r.Tidy fun id => s.contains id = true :=
  h.tidy id r (Keyed.mem_of_lookup (record_eq_ok_iff.1 found))

/-- Adding a node keeps a scene intact. -/
theorem addNode (h : s.Intact) (c : NodeClass) (name : String) (content : α) :
    (s.addNode c name content).2.Intact := by
  refine ⟨h.records.insert_text _ _, fun id record m => ?_⟩
  rcases Keyed.mem_of_mem_insert m with e | m
  · cases e
    exact ⟨.nil, fun _ _ m => absurd m List.not_mem_nil⟩
  · refine (h.tidy id record m).mono fun other there => ?_
    rw [contains, Keyed.contains_iff] at there ⊢
    exact Keyed.mem_keys_insert.2 (.inr there)

/-- Removing a node keeps a scene intact. -/
theorem removeNode (h : s.Intact) (id : String) : (s.removeNode id).Intact := by
  have live : ∀ other, s.contains other = true ∧ other ≠ id →
      (s.removeNode id).contains other = true := by
    rintro other ⟨there, apart⟩
    rw [contains_removeNode, there, Bool.true_and, bne_iff_ne]
    exact apart
  by_cases there : s.contains id = true
  · have removed : (s.removeNode id).records =
        Keyed.mapValues (NodeRecord.forget · id) (Keyed.erase id s.records) := by
      unfold Scene.removeNode
      rw [if_pos there]
    constructor
    · rw [removed]
      exact (h.records.erase id).mapValues _
    · intro other record m
      rw [removed] at m
      obtain ⟨⟨_, before⟩, m', e⟩ := List.mem_map.1 m
      cases e
      exact ((h.tidy _ before (List.mem_filter.1 m').1).forget id).mono live
  · unfold Scene.removeNode
    rwa [if_neg there]

/-- Changing a record keeps a scene intact if the record stays tidy. -/
theorem update (h : s.Intact) {id : String} {f : NodeRecord α → NodeRecord α}
    (tidy : ∀ r : NodeRecord α, (r.Tidy fun id => s.contains id = true) →
      (f r).Tidy fun id => s.contains id = true)
    (e : s.update id f = .ok s') : s'.Intact := by
  obtain ⟨-, rfl⟩ := update_eq_ok_iff.1 e
  -- no node comes or goes
  have live : ∀ other, s.contains other = true →
      Keyed.contains other (Keyed.modify id f s.records) = true := by
    intro other there
    rw [Keyed.contains_iff, Keyed.keys_modify]
    exact Keyed.contains_iff.1 there
  refine ⟨h.records.modify _ _, fun other record m => ?_⟩
  simp only at m
  rw [Keyed.modify_eq_map _ _ (h.records.nodup_keys String.lt_irrefl)] at m
  obtain ⟨⟨other', before⟩, m', e⟩ := List.mem_map.1 m
  cases e
  have before' := h.tidy _ before m'
  split
  · exact (tidy before before').mono live
  · exact before'.mono live

/-- Another name keeps a scene intact. -/
theorem setName (h : s.Intact) {id name : String} (e : s.setName id name = .ok s') : s'.Intact :=
  h.update (f := fun r => { r with name := name }) (fun _ tidy => ⟨tidy.sorted, tidy.targets⟩) e

/-- Other content keeps a scene intact. -/
theorem setContent (h : s.Intact) {id : String} {content : α} (e : s.setContent id content = .ok s') :
    s'.Intact :=
  h.update (f := fun r => { r with content := content }) (fun _ tidy => ⟨tidy.sorted, tidy.targets⟩) e

/-- A reference keeps a scene intact, as its target is there. -/
theorem addReference (h : s.Intact) {holder role target : String}
    (e : s.addReference holder role target = .ok s') : s'.Intact := by
  obtain ⟨⟨r, found⟩, e⟩ := addReference_eq_ok_iff.1 e
  have there : s.contains target = true := by
    exact Option.isSome_iff_exists.2 ⟨r, record_eq_ok_iff.1 found⟩
  exact h.update (fun _ tidy => tidy.addTarget role there) e

/-- Copying content keeps a scene intact. -/
theorem copyContent (h : s.Intact) {source target : String}
    (e : s.copyContent source target = .ok s') : s'.Intact := by
  obtain ⟨src, dest, found, -, -, e⟩ := copyContent_eq_ok_iff.1 e
  exact h.update (fun _ tidy => tidy.takeOver (h.tidy_of_record found)) e

/-- The targets that are listed stand once and are there. -/
theorem of_references (h : s.Intact) {holder role : String} {targets : List String}
    (e : s.references holder role = .ok targets) :
    targets.Nodup ∧ ∀ target ∈ targets, s.contains target = true := by
  unfold Scene.references at e
  cases found : s.record holder with
  | error fault =>
    rw [found] at e
    cases e
  | ok r =>
    rw [found] at e
    cases e
    exact (h.tidy_of_record found).targets_spec role

/-- The roles that are listed stand once, and are those under which something is referenced. -/
theorem of_roles (h : s.Intact) {holder : String} {roles : List String}
    (e : s.roles holder = .ok roles) :
    roles.Nodup ∧ ∀ role, role ∈ roles ↔ ∃ target, s.hasReference holder role target = true := by
  unfold Scene.roles at e
  cases found : s.record holder with
  | error fault =>
    rw [found] at e
    cases e
  | ok r =>
    rw [found] at e
    cases e
    have tidy := h.tidy_of_record found
    have there := record_eq_ok_iff.1 found
    refine ⟨tidy.sorted.nodup_keys String.lt_irrefl, fun role => ?_⟩
    unfold hasReference
    rw [there]
    exact tidy.mem_keys_iff

end Intact

/-! ## Calls -/

/-- A call that changes the scene. -/
inductive Call where
  /-- Add a node of a class under a name. -/
  | addNode (c : NodeClass) (name : String)
  /-- Remove a node. -/
  | removeNode (id : String)
  /-- Change the name of a node. -/
  | setName (id name : String)
  /-- Change the content of a node. -/
  | setContent (id : String) (content : Entries)
  /-- Let a node reference another under a role. -/
  | addReference (holder role target : String)
  /-- Copy the content and the references of a node into another one. -/
  | copyContent (source target : String)

namespace Call

/-- What a call makes of a scene, and the handle that it returns if it adds a node. -/
def apply (s : Scene Entries) : Call → Except SceneError (Option NodeHandle × Scene Entries)
  | .addNode c name => .ok (some (s.addNode c name []).1, (s.addNode c name []).2)
  | .removeNode id => .ok (none, s.removeNode id)
  | .setName id name => (s.setName id name).map (none, ·)
  | .setContent id content => (s.setContent id content).map (none, ·)
  | .addReference holder role target => (s.addReference holder role target).map (none, ·)
  | .copyContent source target => (s.copyContent source target).map (none, ·)

/-- Call in a world, as operations do. -/
def perform (call : Call) : ExceptT OperationError (StateM World) (Option NodeHandle) :=
  Recipe.change fun s => call.apply s

/-- The world after some calls, one after another, whether they succeed or fail. -/
def performAll (w : World) (calls : List Call) : World :=
  calls.foldl (fun w call => (call.perform.run.run w).2) w

variable {w w' : World}

/-- A call that fails leaves the world as it was. -/
theorem eq_of_run_perform {call : Call} {e : OperationError}
    (h : call.perform.run.run w = (.error e, w')) : w' = w := by
  unfold perform at h
  rw [Recipe.run_change] at h
  split at h
  · cases (Prod.mk.inj h).1
  · exact (Prod.mk.inj h).2.symm

/-- What a call makes of an intact scene is intact. -/
theorem intact_apply {call : Call} {s s' : Scene Entries} {handle : Option NodeHandle}
    (h : s.Intact) (e : call.apply s = .ok (handle, s')) : s'.Intact := by
  -- the scene of a call without a handle
  have changed : ∀ {x : Except SceneError (Scene Entries)},
      x.map (none, ·) = .ok (handle, s') → x = .ok s' := by
    intro x e
    cases x with
    | error fault => cases e
    | ok s'' =>
      cases e
      rfl
  cases call with
  | addNode c name =>
    cases e
    exact h.addNode c name []
  | removeNode id =>
    cases e
    exact h.removeNode id
  | setName id name => exact h.setName (changed e)
  | setContent id content => exact h.setContent (changed e)
  | addReference holder role target => exact h.addReference (changed e)
  | copyContent source target => exact h.copyContent (changed e)

/-- One call leaves the scene of a world intact, whether it succeeds or fails. -/
theorem intact_perform (call : Call) (h : w.scene.Intact) :
    (call.perform.run.run w).2.scene.Intact := by
  unfold perform
  rw [Recipe.run_change]
  cases e : call.apply w.scene with
  | error fault => exact h
  | ok result => exact intact_apply h e

/-- So do any calls, one after another. -/
theorem intact_performAll (calls : List Call) (h : w.scene.Intact) :
    (performAll w calls).scene.Intact := by
  induction calls generalizing w with
  | nil => exact h
  | cons call calls ih => exact ih (intact_perform call h)

/-- Whatever is called on the scene without nodes, every target of a reference is there, none stands
twice under a role, the roles that are listed are those with a target, and a call that fails changes
nothing. -/
theorem integrity_performAll (calls : List Call) :
    let w := performAll .empty calls
    (∀ holder role targets, w.scene.references holder role = .ok targets →
      targets.Nodup ∧ ∀ target ∈ targets, w.scene.contains target = true) ∧
    (∀ holder roles, w.scene.roles holder = .ok roles → roles.Nodup ∧ ∀ role,
      (role ∈ roles ↔ ∃ target, w.scene.hasReference holder role target = true) ∧
      (role ∈ roles → w.scene.references holder role ≠ .ok [])) ∧
    ∀ (call : Call) e w', call.perform.run.run w = (.error e, w') → w' = w := by
  intro w
  have h : w.scene.Intact := intact_performAll calls intact_empty
  refine ⟨fun holder role targets e => h.of_references e, fun holder roles e => ?_,
    fun call e w' failed => eq_of_run_perform failed⟩
  obtain ⟨once, listed⟩ := h.of_roles e
  refine ⟨once, fun role => ⟨listed role, fun m empty => ?_⟩⟩
  obtain ⟨target, found⟩ := (listed role).1 m
  -- a role that is listed has a target
  unfold hasReference at found
  unfold Scene.references record at empty
  cases there : w.scene.record? holder with
  | none => simp [there] at found
  | some r =>
    simp only [there] at found empty
    have none' : r.targets role = [] := Except.ok.inj empty
    rw [none'] at found
    cases found

end Call

end Scene

end Pipewright
