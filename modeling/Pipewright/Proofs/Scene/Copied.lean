import Pipewright.Proofs.Scene.Calls

/-! # Copied content
Copying the content of a node into another one of its class gives the target the content of the source
and its references, but for the roles that stay: under these the target keeps its own. Nothing else
changes, and copying once more changes nothing at all, also where the two nodes are one or reference
each other. -/

namespace Pipewright

universe u

/-! ## Records -/

attribute [ext] NodeRecord

namespace NodeRecord

variable {α : Type u} {r source : NodeRecord α}

/-- What is found under a role after taking over: what was there if the role stays, else what the source
has there. -/
theorem lookup_takeOver (h : Keyed.Sorted r.references) (h' : Keyed.Sorted source.references)
    (role : String) : Keyed.lookup role (r.takeOver source).references =
      Keyed.lookup role (if isKeptRole role then r else source).references := by
  have kept := h.filter fun entry => isKeptRole entry.1
  unfold takeOver
  simp only
  rw [Keyed.lookup_foldl_insert (kept.nodup_keys String.lt_irrefl),
    h.lookup_filter String.lt_irrefl, h'.lookup_filter String.lt_irrefl]
  cases stays : isKeptRole role with
  | true =>
    rw [if_pos rfl]
    cases Keyed.lookup role r.references <;> cases Keyed.lookup role source.references <;>
      simp [stays]
  | false =>
    rw [if_neg Bool.false_ne_true]
    cases Keyed.lookup role r.references <;> cases Keyed.lookup role source.references <;>
      simp [stays]

/-- Taking over what was taken over changes nothing. -/
theorem takeOver_takeOver (h : Keyed.Sorted r.references) (h' : Keyed.Sorted source.references) :
    (r.takeOver source).takeOver source = r.takeOver source := by
  have sorted : Keyed.Sorted (r.takeOver source).references := sorted_takeOver h'
  refine NodeRecord.ext rfl rfl rfl ?_
  refine Keyed.Sorted.ext String.lt_irrefl String.lt_trans (sorted_takeOver h') sorted fun role => ?_
  rw [lookup_takeOver sorted h']
  split
  · rfl
  · next other => rw [lookup_takeOver h h', if_neg other]

/-- Taking over from itself changes nothing. -/
theorem takeOver_self (h : Keyed.Sorted r.references) : r.takeOver r = r := by
  refine NodeRecord.ext rfl rfl rfl ?_
  refine Keyed.Sorted.ext String.lt_irrefl String.lt_trans (sorted_takeOver h) h fun role => ?_
  rw [lookup_takeOver h h, ite_self]

end NodeRecord

/-! ## Scenes -/

namespace Scene

variable {α : Type u} {s s' : Scene α} {source target : String}

/-- What a scene is after the content of a node was copied into another one. -/
structure IsCopied (s : Scene α) (source target : String) (s' : Scene α) : Prop where
  /-- The target has the content of the source. -/
  content : s'.content target = s.content source
  /-- Under the roles for display and storage the target references what it did before, under all others
  what the source did. -/
  references : ∀ role, s'.references target role =
    s.references (if role = displayRole ∨ role = storageRole then target else source) role
  /-- The target has these roles and no others. -/
  roles : ∀ role, role ∈ s'.rolesOf target ↔
    role ∈ s.rolesOf (if role = displayRole ∨ role = storageRole then target else source)
  /-- The name of the target is as before. -/
  name : s'.name target = s.name target
  /-- The class of the target is as before. -/
  handle : s'.handle target = s.handle target
  /-- All other nodes are as before. -/
  others : ∀ id, id ≠ target → s'.record? id = s.record? id
  /-- There are the same nodes as before. -/
  ids : s'.ids = s.ids
  /-- No node was counted. -/
  counters : s'.counters = s.counters

/-- A role stays exactly if it is that of display or storage properties. -/
theorem isKeptRole_iff {role : String} :
    isKeptRole role = true ↔ role = displayRole ∨ role = storageRole := by
  unfold isKeptRole
  rw [Bool.or_eq_true, beq_iff_eq, beq_iff_eq]

/-- The roles of a node that is there are those of its record. -/
theorem rolesOf_of_record {id : String} {r : NodeRecord α} (found : s.record id = .ok r) :
    s.rolesOf id = Keyed.keys r.references := by
  unfold rolesOf roles
  rw [found]
  rfl

/-- The record of a node that is there after another one was changed. -/
theorem record_of_update {f : NodeRecord α → NodeRecord α} {r : NodeRecord α}
    (found : s.record target = .ok r) (e : s.update target f = .ok s') :
    s'.record target = .ok (f r) := by
  obtain ⟨-, rfl⟩ := update_eq_ok_iff.1 e
  rw [record_eq_ok_iff] at found ⊢
  unfold record? at found ⊢
  rw [Keyed.lookup_modify_self, found, Option.map_some]

/-- What copying does to a sound scene. -/
theorem Sound.isCopied (h : s.Sound) (e : s.copyContent source target = .ok s') :
    s.IsCopied source target s' := by
  obtain ⟨src, dest, found, found', -, e⟩ := copyContent_eq_ok_iff.1 e
  have sorted := h.references _ _ (Keyed.mem_of_lookup (record_eq_ok_iff.1 found))
  have sorted' := h.references _ _ (Keyed.mem_of_lookup (record_eq_ok_iff.1 found'))
  have after := record_of_update found' e
  obtain ⟨-, rfl⟩ := update_eq_ok_iff.1 e
  -- the holder of a role before is the target if the role stays, else the source
  have holder : ∀ role, s.record (if role = displayRole ∨ role = storageRole then target else source) =
      .ok (if isKeptRole role then dest else src) := by
    intro role
    by_cases stays : isKeptRole role = true
    · rw [if_pos (isKeptRole_iff.1 stays), if_pos stays, found']
    · rw [if_neg (mt isKeptRole_iff.2 stays), if_neg stays, found]
  constructor
  case content =>
    unfold Scene.content
    rw [after, found]
    rfl
  case references =>
    intro role
    unfold Scene.references
    rw [after, holder]
    simp only [Except.map, NodeRecord.targets]
    rw [NodeRecord.lookup_takeOver sorted' sorted]
  case roles =>
    intro role
    rw [rolesOf_of_record after, rolesOf_of_record (holder role), ← Keyed.isSome_lookup_iff,
      ← Keyed.isSome_lookup_iff, NodeRecord.lookup_takeOver sorted' sorted]
  case name =>
    unfold Scene.name
    rw [after, found']
    rfl
  case handle =>
    unfold Scene.handle
    rw [after, found']
    rfl
  case others =>
    intro id apart
    exact Keyed.lookup_modify_of_ne apart _ _
  case ids => exact Keyed.keys_modify _ _ _
  case counters => rfl

/-- Copying again what was copied changes nothing. -/
theorem Sound.copyContent_again (h : s.Sound) (e : s.copyContent source target = .ok s') :
    s'.copyContent source target = .ok s' := by
  obtain ⟨src, dest, found, found', same, e⟩ := copyContent_eq_ok_iff.1 e
  have sorted := h.references _ _ (Keyed.mem_of_lookup (record_eq_ok_iff.1 found))
  have sorted' := h.references _ _ (Keyed.mem_of_lookup (record_eq_ok_iff.1 found'))
  have after := record_of_update found' e
  -- the source is as it was, also where it is the target
  have source' : ∃ src', s'.record source = .ok src' ∧ src'.nodeClass.name = dest.nodeClass.name ∧
      (dest.takeOver src).takeOver src' = dest.takeOver src := by
    by_cases one : source = target
    · rw [one] at found ⊢
      rw [found'] at found
      cases found
      rw [NodeRecord.takeOver_self sorted'] at after ⊢
      exact ⟨src, after, rfl, NodeRecord.takeOver_self sorted⟩
    · have kept : s'.record? source = s.record? source := by
        obtain ⟨-, rfl⟩ := update_eq_ok_iff.1 e
        exact Keyed.lookup_modify_of_ne one _ _
      refine ⟨src, ?_, same, NodeRecord.takeOver_takeOver sorted' sorted⟩
      rw [record_eq_ok_iff, kept]
      exact record_eq_ok_iff.1 found
  obtain ⟨src', found'', same', fixed⟩ := source'
  refine copyContent_eq_ok_iff.2 ⟨src', dest.takeOver src, found'', after, same', ?_⟩
  refine update_eq_ok_iff.2 ⟨⟨_, after⟩, ?_⟩
  have unchanged : Keyed.modify target (fun r => r.takeOver src') s'.records = s'.records := by
    refine Keyed.modify_eq_self fun r there => ?_
    have there' := record_eq_ok_iff.1 after
    unfold record? at there'
    rw [there'] at there
    cases there
    exact fixed
  rw [unchanged]

/-- Copying fails exactly if a node is missing or the classes have different names. -/
theorem copyContent_fails_iff : (∃ e, s.copyContent source target = .error e) ↔
    s.contains source = false ∨ s.contains target = false ∨
      ∃ a b, s.handle source = .ok a ∧ s.handle target = .ok b ∧ a.nodeClass.name ≠ b.nodeClass.name := by
  have there : ∀ id, s.contains id = (s.record? id).isSome := fun _ => rfl
  rw [there, there]
  cases found : s.record? source with
  | none =>
    unfold copyContent record
    simp [found, bind, Except.bind]
  | some src =>
    cases found' : s.record? target with
    | none =>
      unfold copyContent record
      simp [found, found', bind, Except.bind]
    | some dest =>
      have record := record_eq_ok_iff.2 found
      have record' := record_eq_ok_iff.2 found'
      by_cases same : src.nodeClass.name = dest.nodeClass.name
      · have copied := copyContent_eq_ok_iff.2
          ⟨src, dest, record, record', same, update_eq_ok_iff.2 ⟨⟨dest, record'⟩, rfl⟩⟩
        rw [copied]
        simp [handle, record, record', Except.map, same]
      · unfold copyContent
        simp [handle, record, record', Except.map, same, bind, Except.bind, throw, throwThe,
          MonadExceptOf.throw]

/-- An intact scene is sound. -/
theorem Intact.sound (h : s.Intact) : s.Sound :=
  ⟨h.records, fun id record m => (h.tidy id record m).sorted⟩

/-! ## Calls -/

namespace Call

/-- What a call to copy comes to. -/
theorem run_perform_copyContent (w : World) (source target : String) :
    (Call.copyContent source target).perform.run.run w =
      match w.scene.copyContent source target with
      | .ok s => (.ok none, { w with scene := s })
      | .error e => (.error (.scene e), w) := by
  have opened : (Call.copyContent source target).apply w.scene =
      (w.scene.copyContent source target).map (none, ·) := rfl
  unfold perform
  rw [Recipe.run_change, opened]
  cases w.scene.copyContent source target <;> rfl

/-- Whatever was called before, copying the content of a node into another one fails exactly if one of them
is missing or their classes have different names, and then nothing has changed. Else the target is a copy
that keeps its name, its class and its references for display and storage, nothing else has changed, and
copying once more changes nothing. -/
theorem copyContent_copies (calls : List Call) (source target : String) :
    let w := performAll .empty calls
    let call := Call.copyContent source target
    ((∃ e, (call.perform.run.run w).1 = .error e) ↔
      w.scene.contains source = false ∨ w.scene.contains target = false ∨
        ∃ a b, w.scene.handle source = .ok a ∧ w.scene.handle target = .ok b ∧
          a.nodeClass.name ≠ b.nodeClass.name) ∧
    (∀ e w', call.perform.run.run w = (.error e, w') → w' = w) ∧
    ∀ result w', call.perform.run.run w = (.ok result, w') →
      w' = { w with scene := w'.scene } ∧ w.scene.IsCopied source target w'.scene ∧
        call.perform.run.run w' = (.ok result, w') := by
  intro w call
  have h : w.scene.Sound := (intact_performAll calls intact_empty).sound
  refine ⟨?_, fun e w' failed => eq_of_run_perform failed, fun result w' copied => ?_⟩
  · rw [← copyContent_fails_iff, run_perform_copyContent]
    cases w.scene.copyContent source target <;> simp
  · rw [run_perform_copyContent] at copied
    cases e : w.scene.copyContent source target with
    | error fault =>
      rw [e] at copied
      cases (Prod.mk.inj copied).1
    | ok s' =>
      rw [e] at copied
      obtain ⟨done, rfl⟩ := Prod.mk.inj copied
      refine ⟨rfl, h.isCopied e, ?_⟩
      rw [run_perform_copyContent, h.copyContent_again e, ← done]

/-- Of two nodes that reference each other, one is copied into the other, which thereby references itself
and keeps its reference for display. -/
theorem copyContent_copies_mutual :
    let w := performAll .empty [.addNode .root "a", .addNode .root "b",
      .addReference "Node1" "peer" "Node2", .addReference "Node2" "peer" "Node1",
      .addReference "Node2" "display" "Node1"]
    let call := Call.copyContent "Node1" "Node2"
    ∃ w', call.perform.run.run w = (.ok none, w') ∧
      w'.scene.references "Node2" "peer" = .ok ["Node2"] ∧
      w'.scene.references "Node2" "display" = .ok ["Node1"] ∧
      call.perform.run.run w' = (.ok none, w') := by
  intro w call
  have copied : call.perform.run.run w = (.ok none, (call.perform.run.run w).2) := rfl
  obtain ⟨-, -, each⟩ := copyContent_copies [.addNode .root "a", .addNode .root "b",
    .addReference "Node1" "peer" "Node2", .addReference "Node2" "peer" "Node1",
    .addReference "Node2" "display" "Node1"] "Node1" "Node2"
  obtain ⟨-, copy, again⟩ := each _ _ copied
  refine ⟨_, copied, ?_, ?_, again⟩
  · rw [copy.references]
    rfl
  · rw [copy.references]
    rfl

end Call

end Scene

end Pipewright
