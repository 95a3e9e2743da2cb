import Pipewright.Operation.Recipe
import Pipewright.Proofs.Scene.Removal

/-! # What keeps scenes sound
Whatever is done to a scene keeps its records and references in order, and so does every operation
that follows a recipe, whether it succeeds or fails. -/

namespace Pipewright

universe u

/-! ## Changes of a scene -/

namespace NodeRecord

variable {α : Type u} {r source : NodeRecord α}

/-- Another target keeps the references in the order of their roles. -/
theorem sorted_addTarget (h : Keyed.Sorted r.references) (role target : String) :
    Keyed.Sorted (r.addTarget role target).references := h.insert_text role _

/-- Taking over references keeps them in the order of their roles. -/
theorem sorted_takeOver (h : Keyed.Sorted source.references) :
    Keyed.Sorted (r.takeOver source).references := by
  exact Keyed.Sorted.foldl_insert (h.filter _) _

end NodeRecord

namespace Scene

variable {α : Type u} {s s' : Scene α}

/-- A node that must be there is there. -/
theorem record_eq_ok_iff {id : String} {r : NodeRecord α} :
    s.record id = .ok r ↔ s.record? id = some r := by
  unfold record
  cases s.record? id <;> simp

/-- A node that must be there is missing exactly if it is not there. -/
theorem record_eq_error_iff {id : String} {e : SceneError} :
    s.record id = .error e ↔ s.record? id = none ∧ e = .nodeNotFound id := by
  unfold record
  cases s.record? id <;> simp [eq_comm]

/-- A record is changed exactly if it is there. -/
theorem update_eq_ok_iff {id : String} {f : NodeRecord α → NodeRecord α} :
    s.update id f = .ok s' ↔
      (∃ r, s.record id = .ok r) ∧ s' = { s with records := Keyed.modify id f s.records } := by
  unfold update
  cases s.record id with
  | ok r => simp [Except.map, eq_comm]
  | error e => simp [Except.map]

/-- A reference is added exactly if both nodes are there. -/
theorem addReference_eq_ok_iff {holder role target : String} :
    s.addReference holder role target = .ok s' ↔ (∃ r, s.record target = .ok r) ∧
      s.update holder (fun r => r.addTarget role target) = .ok s' := by
  unfold addReference
  cases s.record target <;> simp [bind, Except.bind]

/-- Content is copied exactly if both nodes are there and their classes have one name. -/
theorem copyContent_eq_ok_iff {source target : String} :
    s.copyContent source target = .ok s' ↔ ∃ src dest, s.record source = .ok src ∧
      s.record target = .ok dest ∧ src.nodeClass.name = dest.nodeClass.name ∧
        s.update target (fun r => r.takeOver src) = .ok s' := by
  unfold copyContent
  cases s.record source with
  | error e => simp [bind, Except.bind]
  | ok src =>
    cases s.record target with
    | error e => simp [bind, Except.bind]
    | ok dest =>
      by_cases same : src.nodeClass.name = dest.nodeClass.name
      · simp [bind, Except.bind, same]
      · simp [bind, Except.bind, same, throw, throwThe, MonadExceptOf.throw]

/-- The scene without nodes is sound. -/
theorem sound_empty : (empty : Scene α).Sound := ⟨.nil, fun _ _ m => absurd m List.not_mem_nil⟩

namespace Sound

/-- Adding a node keeps a scene sound. -/
theorem addNode (h : s.Sound) (c : NodeClass) (name : String) (content : α) :
    (s.addNode c name content).2.Sound := by
  refine ⟨h.records.insert_text _ _, fun id record m => ?_⟩
  rcases Keyed.mem_of_mem_insert m with e | m
  · cases e
    exact .nil
  · exact h.references id record m

/-- Changing a record keeps a scene sound if the references of the record stay in order. -/
theorem update (h : s.Sound) {id : String} {f : NodeRecord α → NodeRecord α}
    (sorted : ∀ r : NodeRecord α, Keyed.Sorted r.references → Keyed.Sorted (f r).references)
    (e : s.update id f = .ok s') : s'.Sound := by
  obtain ⟨-, rfl⟩ := update_eq_ok_iff.1 e
  refine ⟨h.records.modify _ _, fun other record m => ?_⟩
  simp only at m
  rw [Keyed.modify_eq_map _ _ (h.records.nodup_keys String.lt_irrefl)] at m
  obtain ⟨⟨other', before⟩, there, e⟩ := List.mem_map.1 m
  cases e
  have before' := h.references _ _ there
  split
  · exact sorted _ before'
  · exact before'

/-- Another name keeps a scene sound. -/
theorem setName (h : s.Sound) {id name : String} (e : s.setName id name = .ok s') : s'.Sound :=
  h.update (f := fun r => { r with name := name }) (fun _ sorted => sorted) e

/-- Other content keeps a scene sound. -/
theorem setContent (h : s.Sound) {id : String} {content : α} (e : s.setContent id content = .ok s') :
    s'.Sound :=
  h.update (f := fun r => { r with content := content }) (fun _ sorted => sorted) e

/-- A reference keeps a scene sound. -/
theorem addReference (h : s.Sound) {holder role target : String}
    (e : s.addReference holder role target = .ok s') : s'.Sound :=
  h.update (fun _ sorted => NodeRecord.sorted_addTarget sorted role target)
    (addReference_eq_ok_iff.1 e).2

/-- Copying content keeps a scene sound. -/
theorem copyContent (h : s.Sound) {source target : String}
    (e : s.copyContent source target = .ok s') : s'.Sound := by
  obtain ⟨src, dest, found, -, -, e⟩ := copyContent_eq_ok_iff.1 e
  have there := h.references _ _ (Keyed.mem_of_lookup (record_eq_ok_iff.1 found))
  exact h.update (fun _ _ => NodeRecord.sorted_takeOver there) e

end Sound

end Scene

/-! ## Operations -/

/-- A change is made to the scene of a world; where it fails, the world is as it was. -/
theorem Recipe.run_change {α : Type} (f : Scene Entries → Except SceneError (α × Scene Entries))
    (w : World) : (Recipe.change f).run.run w =
      match f w.scene with
      | .ok (a, s) => (.ok a, { w with scene := s })
      | .error e => (.error (.scene e), w) := by
  show (ExceptT.run (match f w.scene with
    | .ok (a, s) => (do
      set { w with scene := s }
      return a : ExceptT OperationError (StateM World) α)
    | .error e => MonadExcept.throw (.scene e))).run w = _
  cases f w.scene <;> rfl

/-- Something that is done to a world leaves a sound scene sound. -/
def KeepsSound {α : Type} (x : ExceptT OperationError (StateM World) α) : Prop :=
  ∀ w : World, w.scene.Sound → (x.run.run w).2.scene.Sound

/-- An operation leaves sound scenes sound, however it is called. -/
def Operation.KeepsScenes (o : Operation) : Prop := ∀ c, KeepsSound (o.implementation c)

namespace KeepsSound

variable {α β : Type}

/-- A value that is there keeps everything. -/
theorem pure (a : α) : KeepsSound (pure a) := fun _ h => h

/-- A failure keeps everything. -/
theorem throw (e : OperationError) : KeepsSound (throw e : ExceptT OperationError (StateM World) α) :=
  fun _ h => h

/-- What is done one after the other keeps scenes sound if both parts do. -/
theorem bind {x : ExceptT OperationError (StateM World) α}
    {f : α → ExceptT OperationError (StateM World) β} (h : KeepsSound x)
    (h' : ∀ a, KeepsSound (f a)) : KeepsSound (x >>= f) := by
  intro w sound
  have first := h w sound
  show ((ExceptT.bindCont f (x.run.run w).1) (x.run.run w).2).2.scene.Sound
  cases e : x.run.run w with
  | mk result after =>
    rw [e] at first
    cases result with
    | ok a => exact h' a after first
    | error fault => exact first

/-- Looking at an argument keeps everything. -/
theorem lift (x : Except OperationError α) : KeepsSound (Recipe.lift x) := by
  cases x with
  | ok a => exact pure a
  | error e => exact throw e

/-- A change of the scene that keeps it sound. -/
theorem change {f : Scene Entries → Except SceneError (α × Scene Entries)}
    (h : ∀ s a s', s.Sound → f s = .ok (a, s') → s'.Sound) : KeepsSound (Recipe.change f) := by
  intro w sound
  rw [Recipe.run_change]
  cases e : f w.scene with
  | ok result => exact h w.scene result.1 result.2 sound e
  | error fault => exact sound

/-- A change that leads to another scene, which is sound again. -/
theorem replace {f : Scene Entries → Except SceneError (Scene Entries)} (a : α)
    (h : ∀ s s', s.Sound → f s = .ok s' → s'.Sound) :
    KeepsSound (Recipe.change fun s => (f s).map fun s => (a, s)) :=
  .change fun s a' s' sound e => by
    cases changed : f s with
    | ok s'' =>
      rw [changed] at e
      cases e
      exact h s s' sound changed
    | error fault =>
      rw [changed] at e
      cases e

/-- Looking at the scene keeps it. -/
theorem look (f : Scene Entries → Except SceneError β) (g : β → α) :
    KeepsSound (Recipe.change fun s => (f s).map fun b => (g b, s)) :=
  .change fun s a s' sound e => by
    cases seen : f s with
    | ok b =>
      rw [seen] at e
      cases e
      exact sound
    | error fault =>
      rw [seen] at e
      cases e

end KeepsSound

/-- A call leaves sound scenes sound if the operation does. -/
theorem Operation.KeepsScenes.call {o : Operation} (h : o.KeepsScenes) (arguments : Entries) :
    KeepsSound (o.call arguments) := by
  unfold Operation.call
  split
  · exact .throw _
  · exact h _

/-! ## Recipes -/

namespace Recipe

variable (c : OperationCall)

/-- Letting a node reference others keeps scenes sound. -/
theorem keepsSound_addReferences (holder : NodeHandle) (references : List (String × String)) :
    KeepsSound (addReferences c holder references) := by
  induction references with
  | nil => exact .pure ()
  | cons reference references ih =>
    obtain ⟨role, name⟩ := reference
    exact .bind (.lift _) fun target => .bind
      (.replace () fun _ _ sound added => sound.addReference added) fun _ => ih

mutual

/-- Following a recipe keeps scenes sound. -/
theorem keepsSound_follow : (recipe : Recipe) → KeepsSound (follow c recipe)
  | .nothing => .pure _
  | .const _ => .pure _
  | .argument _ => .lift _
  | .int _ => .lift _
  | .float _ => .lift _
  | .text _ => .lift _
  | .bool _ => .lift _
  | .node _ => .lift _
  | .value _ => .lift _
  | .double _ => .lift _
  | .sum _ _ => .bind (.lift _) fun _ => .bind (.lift _) fun _ => .pure _
  | .vertices _ _ => .bind (.lift _) fun _ => .bind (.look _ _) fun _ =>
    .bind (.lift _) fun _ => .bind (.lift _) fun _ => .pure _
  -- nodes that are made, removed or referred to change a scene; nothing else does
  | .create nodeClass name count references =>
    .bind (.change fun s a s' sound e => by cases e; exact sound.addNode _ _ _) fun handle =>
      .bind (keepsSound_followCount handle count) fun _ =>
        .bind (keepsSound_addReferences c handle references) fun _ => .pure _
  | .remove _ => .bind (.lift _) fun _ =>
    .change fun s a s' sound e => by cases e; exact sound.removeNode _
  | .reference _ _ _ => .bind (.lift _) fun _ => .bind (.lift _) fun _ =>
    .replace _ fun _ _ sound added => sound.addReference added
  | .content _ => .look _ Datum.map
  | .fail _ => .throw _
  | .map fields => .bind (keepsSound_followFields fields) fun _ => .pure _
  | .array items => .bind (keepsSound_followItems items) fun _ => .pure _
  | .sequence items => .bind (keepsSound_followItems items) fun _ => .pure _
  | .report _ _ _ _ => by
    unfold follow
    split
    · exact .pure _
    · exact fun w sound => sound
  | .describe => .pure _

/-- So does following the recipe for a count. -/
theorem keepsSound_followCount (handle : NodeHandle) :
    (count : Option Recipe) → KeepsSound (followCount c handle count)
  | none => .pure _
  | some recipe => .bind (keepsSound_follow recipe) fun _ =>
    .replace _ fun _ _ sound changed => sound.setContent changed

/-- So does following recipes one after another. -/
theorem keepsSound_followItems : (items : List Recipe) → KeepsSound (followItems c items)
  | [] => .pure _
  | item :: items => .bind (keepsSound_follow item) fun _ =>
    .bind (keepsSound_followItems items) fun _ => .pure _

/-- So does following the recipes of fields. -/
theorem keepsSound_followFields :
    (fields : List (String × Recipe)) → KeepsSound (followFields c fields)
  | [] => .pure _
  | (_, item) :: fields => .bind (keepsSound_follow item) fun _ =>
    .bind (keepsSound_followFields fields) fun _ => .pure _

end

end Recipe

end Pipewright
